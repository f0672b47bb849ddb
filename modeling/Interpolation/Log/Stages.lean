import Interpolation.Compile
import Interpolation.Log.Event
import Interpolation.Text.Quoted

/-!
# What the stages of a compilation log

The log of a stage follows from its result, so the stages themselves know nothing of it: a scan
holds the tokens it found, also before a failure, and a parse holds the errors it skipped.
-/

namespace Interpolation.Log

/-! ## Tokens -/

/-- The number of modes that a scanner in the given mode has on its stack. -/
def stackHeight : Mode → Nat
  | .outer => 1
  | .inside _ => 2

/-- An expression is opened by the token. -/
def opened (d : Delimiter) (t : Token) : Event :=
  ⟨.trace, "push lexer mode",
    [("mode", d.name.toList), ("depth", Text.decimal (stackHeight t.mode))]⟩

def found (t : Token) : Event :=
  ⟨.trace, "token",
    [("kind", t.kind.name.toList), ("text", t.text), ("offset", Text.decimal t.offset)]⟩

/-- The events of a token. -/
def token (t : Token) : List Event :=
  match t.kind with
  | .opening d => [opened d t, found t]
  | _ => [found t]

/-- The end of a scan was reached. -/
def tokenized (count openCount : Nat) : Event :=
  ⟨.debug, "tokenized input", [("tokens", Text.decimal count), ("open", Text.decimal openCount)]⟩

def scan (s : Scan) : List Event :=
  s.tokens.flatMap token ++
    match s.result with
    | .ok tokens => [tokenized tokens.length s.openCount]
    | .error _ => []

/-! ## Items -/

def skipped (e : ParseError) : Event :=
  ⟨.debug, "parse error, skipping to next '\x7d'", [("error", e.message.toList)]⟩

def parsed (count : Nat) : Event :=
  ⟨.debug, "parsed composite expression", [("items", Text.decimal count)]⟩

def parse (p : Parse) : List Event :=
  match p.errors with
  | [] => [parsed p.items.length]
  | errors => errors.map skipped

/-- The log of reading the form of a text: its tokens, and its items unless the tokens failed. -/
def form (limit : Nat) (input : Text) : List Event :=
  let s := Scan.ofText input
  scan s ++
    match s.result with
    | .ok tokens => parse (.ofTokens limit tokens)
    | .error _ => []

/-! ## Whole texts -/

def compiled (input : Text) : Event :=
  ⟨.debug, "compiled expression", [("input_len", Text.decimal (Text.byteSize input))]⟩

def compile (o : Options) (input : Text) : List Event :=
  if o.maxInputLen < Text.byteSize input then []
  else
    form o.maxDepth input ++
      match Interpolation.compile o input with
      | .ok _ => [compiled input]
      | .error _ => []

/-- A text is kept as a string. -/
def kept (e : CompileError) (input : Text) : Event :=
  ⟨.warn, "could not compile expression, keeping it as a string",
    [("error", e.message.toList), ("input", Text.quoted input)]⟩

/-- The log of a compilation that falls back to the text itself. -/
def compileOrKeep (o : Options) (input : Text) : List Event :=
  compile o input ++
    match Interpolation.compile o input with
    | .ok _ => []
    | .error e => [kept e input]

/-- An error beside the one that is reported. -/
def additional (e : ParseError) : Event :=
  ⟨.warn, "additional parse error", [("error", e.message.toList)]⟩

def check (o : Options) (input : Text) : List Event :=
  form o.maxDepth input ++
    match tokenize input with
    | .ok tokens => (Parse.ofTokens o.maxDepth tokens).errors.tail.map additional
    | .error _ => []

end Interpolation.Log
