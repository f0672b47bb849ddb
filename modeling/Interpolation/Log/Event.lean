import Interpolation.Text.Basic

/-!
# Log events

What a log says, as data: an event has a level, a message and named values. Which events are shown
depends on the least severe level that was asked for.
-/

namespace Interpolation

/-- How severe an event is. -/
inductive Level where
  /-- Every step. -/
  | trace
  /-- Every stage. -/
  | debug
  /-- Something worth knowing. -/
  | info
  /-- Something that may be wrong. -/
  | warn
  /-- Something that is wrong. -/
  | error
  deriving DecidableEq

namespace Level

/-- The level to show when more detail was asked for the given number of times. -/
def ofVerbosity : Nat → Level
  | 0 => .warn
  | 1 => .debug
  | _ => .trace

/-- The place of the level in the order of severity. -/
def severity : Level → Nat
  | .trace => 0
  | .debug => 1
  | .info => 2
  | .warn => 3
  | .error => 4

/-- The name of the level in a log. -/
def tag : Level → String
  | .trace => "TRACE"
  | .debug => "DEBUG"
  | .info => "INFO"
  | .warn => "WARN"
  | .error => "ERROR"

end Level

/-- An entry of a log. -/
structure Event where
  /-- How severe it is. -/
  level : Level
  /-- What happened. -/
  message : String
  /-- The values that belong to the message. -/
  fields : List (String × Text)

namespace Event

/-- Whether the event is shown when `threshold` is the least severe level to show. -/
def isShown (threshold : Level) (e : Event) : Bool := threshold.severity ≤ e.level.severity

/-- A value of an event in the log. -/
def field (name : String) (value : Text) : Text := ' ' :: name.toList ++ '=' :: value

def line (e : Event) : Text :=
  Text.alignRight 5 e.level.tag.toList ++ ' ' :: e.message.toList ++
    e.fields.flatMap fun (name, value) ↦ field name value

end Event

end Interpolation
