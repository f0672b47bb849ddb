import Interpolation.Command.Basic

/-!
# Arguments of the command line

The arguments are flags for the program, the name of a command, and the arguments of that command:
flags, settings and texts, in any order. A flag is a word after two dashes, or a letter after one
dash, where several letters can share the dash. A setting is a word after two dashes with a value,
which follows an equals sign or is the next argument. All that follows two dashes alone is text, and
so is a dash alone.

Only the flag for more detail may be repeated. Where it is given both before and after the name of
the command, the latter counts.
-/

namespace Interpolation

/-- What the arguments ask for. -/
inductive Request where
  /-- The version of the program. -/
  | version
  /-- A command, with the number of times that more detail was asked for. -/
  | run (verbosity : Nat) (command : Command)
  deriving DecidableEq

/-- Whether the request looks for input on the standard input. -/
def Request.readsStdin : Request → Bool
  | .version => false
  | .run _ command => command.readsStdin

namespace Arguments

/-! ## Numbers -/

/-- The number that a text of decimal digits stands for, with or without a plus sign. It has to fit
into 64 bits. -/
def number? (s : Text) : Option Nat :=
  let digits : Text := match s with
    | '+' :: ds => ds
    | ds => ds
  let n : Nat := digits.foldl (fun n d ↦ 10 * n + (d.toNat - '0'.toNat)) 0
  if digits ≠ [] ∧ digits.all Char.isDigit ∧ n < UInt64.size then some n else none

/-! ## Flags and settings -/

/-- The flags of commands. -/
inductive Flag where
  | verbose
  | json
  | pretty
  /-- Keep a text that fails as a string. -/
  | fallback
  deriving DecidableEq

def Flag.word : Flag → String
  | .verbose => "verbose"
  | .json => "json"
  | .pretty => "pretty"
  | .fallback => "fallback"

def Flag.letter? : Flag → Option Char
  | .verbose => some 'v'
  | .json => some 'j'
  | .pretty => some 'p'
  | .fallback => none

/-- The settings of commands. -/
inductive Setting where
  | maxDepth
  | emptyHelper
  deriving DecidableEq

def Setting.word : Setting → String
  | .maxDepth => "max-depth"
  | .emptyHelper => "empty-helper"

/-- What a command can be given. -/
structure Form where
  /-- Its flags. -/
  flags : List Flag
  /-- Its settings. -/
  settings : List Setting
  /-- The greatest number of its texts. -/
  texts : Nat

/-- What a command is given. -/
structure Given where
  /-- How often more detail was asked for. -/
  verbosity : Nat := 0
  flags : List Flag := []
  maxDepth : Option Nat := none
  emptyHelper : Option Text := none
  texts : List Text := []

namespace Given

def addFlag (g : Given) : Flag → Option Given
  | .verbose => some { g with verbosity := g.verbosity + 1 }
  | f => if f ∈ g.flags then none else some { g with flags := f :: g.flags }

def addSetting (g : Given) (value : Text) : Setting → Option Given
  | .maxDepth =>
    if g.maxDepth.isSome then none else (number? value).map fun n ↦ { g with maxDepth := some n }
  | .emptyHelper =>
    if g.emptyHelper.isSome then none else some { g with emptyHelper := some value }

def addText (form : Form) (g : Given) (text : Text) : Option Given :=
  if g.texts.length < form.texts then some { g with texts := g.texts ++ [text] } else none

/-- The options that the settings make. -/
def options (g : Given) : Options :=
  { maxDepth := g.maxDepth.getD Options.default.maxDepth
    emptyHelper := g.emptyHelper.getD Options.default.emptyHelper }

/-- The form of printing that the flags ask for. -/
def format (g : Given) : Format :=
  if .json ∈ g.flags then if .pretty ∈ g.flags then .prettyJson else .json else .source

end Given

/-! ## Reading -/

/-- Adds the flag with the given letter. -/
def addLetter (form : Form) (g : Given) (letter : Char) : Option Given := do
  let flag ← form.flags.find? (·.letter? = some letter)
  g.addFlag flag

/-- A word and the value behind its first equals sign, if it has one. -/
def splitValue (s : Text) : Text × Option Text :=
  match s.dropWhile (· ≠ '=') with
  | [] => (s, none)
  | _ :: value => (s.takeWhile (· ≠ '='), some value)

/-- Whether an argument is made of dashes and what follows them, and so cannot be the value of the
setting before it. -/
def isDashed : Text → Bool
  | '-' :: _ :: _ => true
  | _ => false

/-- Reads the arguments of a command. -/
def readForm (form : Form) (g : Given) : List Text → Option Given
  | [] => some g
  | ['-', '-'] :: args => args.foldlM (Given.addText form) g
  | ('-' :: '-' :: body) :: args =>
    let (word, value?) := splitValue body
    match form.flags.find? (·.word.toList = word), form.settings.find? (·.word.toList = word) with
    | some flag, _ =>
      if value?.isSome then none else (g.addFlag flag).bind fun g ↦ readForm form g args
    | none, some setting =>
      match value?, args with
      | some value, args => (g.addSetting value setting).bind fun g ↦ readForm form g args
      | none, value :: args =>
        if isDashed value then none
        else (g.addSetting value setting).bind fun g ↦ readForm form g args
      | none, [] => none
    | none, none => none
  | ('-' :: letter :: letters) :: args =>
    ((letter :: letters).foldlM (addLetter form) g).bind fun g ↦ readForm form g args
  | text :: args => (g.addText form text).bind fun g ↦ readForm form g args

/-! ## Commands -/

/-- The names of commands. -/
inductive Verb where
  | compile
  | check
  | tokens
  | docs
  | doc
  deriving DecidableEq

namespace Verb

def ofName? (name : Text) : Option Verb :=
  match String.ofList name with
  | "compile" => some .compile
  | "check" => some .check
  | "tokens" => some .tokens
  | "docs" => some .docs
  | "doc" => some .doc
  | _ => none

/-- What the command can be given. -/
def form : Verb → Form
  | .compile => ⟨[.verbose, .json, .pretty, .fallback], [.maxDepth, .emptyHelper], 1⟩
  | .check => ⟨[.verbose], [.maxDepth, .emptyHelper], 1⟩
  | .tokens => ⟨[.verbose], [], 1⟩
  | .docs => ⟨[.verbose], [], 0⟩
  | .doc => ⟨[.verbose], [], 1⟩

/-- The command that is made of what it is given. -/
def command? (g : Given) : Verb → Option Command
  | .compile => some (.compile g.texts.head? g.format (.fallback ∈ g.flags) g.options)
  | .check => some (.check g.texts.head? g.options)
  | .tokens => some (.tokens g.texts.head?)
  | .docs => some .docs
  | .doc => g.texts.head?.map .doc

/-- Reads the arguments behind the name of a command. -/
def read (verbosity : Nat) (verb : Verb) (args : List Text) : Option Request := do
  let given ← readForm verb.form {} args
  let command ← verb.command? given
  return .run (if given.verbosity = 0 then verbosity else given.verbosity) command

end Verb

/-- Reads the letters behind a dash before the name of a command, and then whatever `next` reads. -/
def readLetters (next : Nat → Option Request) (verbosity : Nat) : Text → Option Request
  | [] => next verbosity
  | c :: cs =>
    if c = 'v' then readLetters next (verbosity + 1) cs
    else if c = 'V' then some .version
    else none

/-- Reads the arguments of the program, after more detail was asked for `verbosity` times. -/
def readFrom (verbosity : Nat) : List Text → Option Request
  | [] => none
  | arg :: args =>
    match Verb.ofName? arg with
    | some verb => verb.read verbosity args
    | none =>
      if arg = "--verbose".toList then readFrom (verbosity + 1) args
      else if arg = "--version".toList then some .version
      else
        match arg with
        | '-' :: c :: cs =>
          readLetters (fun verbosity ↦ readFrom verbosity args) verbosity (c :: cs)
        | _ => none

/-- What the arguments of the program ask for, if they can be understood. -/
def read? (args : List Text) : Option Request := readFrom 0 args

end Arguments

end Interpolation
