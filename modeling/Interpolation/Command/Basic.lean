import Interpolation.Code.Node
import Interpolation.Code.Source
import Interpolation.Command.Manual
import Interpolation.Compile

/-!
# Commands

What the command line can be asked to do, and why it may not be able to. The input of a command
is a text given as an argument, or else what stands on the standard input.
-/

namespace Interpolation

/-- The forms in which code is printed. -/
inductive Format where
  | source
  | json
  | prettyJson
  deriving DecidableEq

def Format.render : Format → Code → Text
  | .source, c => c.source
  | .json, c => c.json
  | .prettyJson, c => c.prettyJson

/-- What to do. -/
inductive Command where
  /-- Compile a text and print the code. With `keep`, a text that fails becomes a string. -/
  | compile (input : Option Text) (format : Format) (keep : Bool) (options : Options)
  /-- Look at the form of a text only. -/
  | check (input : Option Text) (options : Options)
  | tokens (input : Option Text)
  | docs
  | doc (topic : Text)
  deriving DecidableEq

/-- Whether the command looks for its input on the standard input. -/
def Command.readsStdin : Command → Bool
  | .compile input _ _ _ => input.isNone
  | .check input _ => input.isNone
  | .tokens input => input.isNone
  | .docs => false
  | .doc _ => false

/-- Why a command fails. -/
inductive CommandError where
  /-- The text is refused. -/
  | compile (cause : CompileError)
  /-- The standard input cannot be read. -/
  | io (description : String)
  /-- There is no input. -/
  | noInput
  /-- The manual has no such topic. -/
  | unknownTopic (name : Text)
  deriving DecidableEq

def CommandError.message : CommandError → String
  | .compile cause => cause.message
  | .io description => s!"IO error: {description}"
  | .noInput => "No input provided. Pass an expression or pipe it to stdin."
  | .unknownTopic name =>
    "Unknown category: '" ++ String.ofList name ++ "'\nRun 'elc docs' to see available categories."

/-- The page of the manual on the topic with the given name. -/
def Manual.find (name : Text) : Except CommandError (List String) :=
  match Topic.ofName? (String.ofList name) with
  | some topic => .ok (Manual.page topic)
  | none => .error (.unknownTopic name)

end Interpolation
