import Interpolation.Command.Arguments
import Interpolation.Log.Stages

/-!
# Running a command

A command is a function of its arguments and of the bytes on the standard input. What it does is
described by an `Outcome`: what it prints, and how it ends. The log comes before the message of an
error.
-/

namespace Interpolation

/-- What a run of the program amounts to. -/
structure Outcome where
  /-- The exit status: 0 for success, 1 for failure, 2 for arguments that make no sense. -/
  status : Nat
  /-- What is printed on the standard output. -/
  out : Text
  /-- What is printed on the standard error output. -/
  err : Text

/-- A text from its lines, each ended by a line feed. -/
def unlines (lines : List Text) : Text := lines.flatMap (· ++ ['\n'])

/-! ## Input -/

/-- The text without the end of its last line. -/
def dropLineEnd (s : Text) : Text :=
  match s.reverse with
  | '\n' :: '\r' :: r => r.reverse
  | '\n' :: r => r.reverse
  | _ => s

/-- The text on the standard input, of which nothing is given when nothing can be read from it. -/
def stdinText : Option ByteArray → Except CommandError Text
  | none => .error .noInput
  | some bytes =>
    match String.fromUTF8? bytes with
    | some s => .ok (dropLineEnd s.toList)
    | none => .error (.io "stream did not contain valid UTF-8")

def inputText (argument : Option Text) (stdin : Option ByteArray) : Except CommandError Text :=
  match argument with
  | some s => .ok s
  | none => stdinText stdin

/-! ## Commands -/

/-- What a command does: the events it logs, and what it prints if it succeeds. -/
structure Effect where
  /-- The log. -/
  events : List Event
  /-- The text to print. -/
  result : Except CommandError Text

namespace Effect

/-- A command that fails before it does anything. -/
def failure (e : CommandError) : Effect := ⟨[], .error e⟩

/-- Goes on with the input of a command. -/
def withInput (argument : Option Text) (stdin : Option ByteArray) (f : Text → Effect) : Effect :=
  match inputText argument stdin with
  | .ok input => f input
  | .error e => failure e

def compile (format : Format) (keep : Bool) (o : Options) (input : Text) : Effect :=
  let print (c : Code) : Text := unlines [format.render c]
  if keep then ⟨Log.compileOrKeep o input, .ok (print (compileOrKeep o input))⟩
  else ⟨Log.compile o input, ((Interpolation.compile o input).map print).mapError .compile⟩

/-- The answer of a check that found the given number of items. -/
def validity (count : Nat) : Text :=
  "Syntax is valid (".toList ++ Text.decimal count ++
    (if count = 1 then " item)\n" else " items)\n").toList

def check (o : Options) (input : Text) : Effect :=
  ⟨Log.check o input, ((Interpolation.check o input).map validity).mapError .compile⟩

def tokens (input : Text) : Effect :=
  ⟨Log.scan (.ofText input), ((listing input).map unlines).mapError .compile⟩

def page (lines : List String) : Effect := ⟨[], .ok (Manual.text lines).toList⟩

/-- What is printed and how the program ends, when `threshold` is the least severe level to show. -/
def outcome (threshold : Level) (e : Effect) : Outcome :=
  let log := unlines ((e.events.filter (·.isShown threshold)).map Event.line)
  match e.result with
  | .ok text => ⟨0, text, log⟩
  | .error cause => ⟨1, [], log ++ unlines [cause.message.toList]⟩

end Effect

/-- What a command does with the given standard input. -/
def Command.effect (stdin : Option ByteArray) : Command → Effect
  | .compile input format keep o => .withInput input stdin (.compile format keep o)
  | .check input o => .withInput input stdin (.check o)
  | .tokens input => .withInput input stdin .tokens
  | .docs => .page Manual.overview
  | .doc topic =>
    match Manual.find topic with
    | .ok lines => .page lines
    | .error e => .failure e

/-! ## Requests -/

def Request.outcome (stdin : Option ByteArray) : Request → Outcome
  | .version => ⟨0, "elc 0.1.0\n".toList, []⟩
  | .run verbosity command => (command.effect stdin).outcome (.ofVerbosity verbosity)

/-- The outcome where the arguments make no sense. -/
def Outcome.usage : Outcome :=
  ⟨2, [], "usage: elc [-v] [-V] (compile | check | tokens | docs | doc) [arguments]\n".toList⟩

def run (args : List Text) (stdin : Option ByteArray) : Outcome :=
  match Arguments.read? args with
  | some request => request.outcome stdin
  | none => .usage

end Interpolation
