/-! Log events.

    An event has a level, a source and a text. A reader asks for more by repeating an option, and
    sees every event up to the level that this chooses. -/

namespace BootImage.Log

/-- How much an event matters. -/
inductive Level where
  | error
  | warn
  | info
  | debug
  | trace
  deriving DecidableEq

namespace Level

/-- The name of the level. -/
def name : Level → String
  | .error => "ERROR"
  | .warn => "WARN"
  | .info => "INFO"
  | .debug => "DEBUG"
  | .trace => "TRACE"

/-- How much a reader has to ask for before such an event is shown. -/
def rank : Level → Nat
  | .error => 0
  | .warn => 1
  | .info => 2
  | .debug => 3
  | .trace => 4

/-- The terminal colour of the level. -/
def colour : Level → String
  | .error => "31"
  | .warn => "33"
  | .info => "32"
  | .debug => "37"
  | .trace => "0"

/-- The level that is still shown after so many requests for more. -/
def ofVerbosity : Nat → Level
  | 0 => .warn
  | 1 => .info
  | 2 => .debug
  | _ => .trace

end Level

/-- Something that is told. -/
structure Event where
  level : Level
  source : String
  text : String
  deriving DecidableEq

namespace Event

/-- The event as one plain line. -/
def plain (e : Event) : String := s!"{e.level.name} {e.source} - {e.text}"

/-- The name of the level on five columns. -/
def levelColumn (e : Event) : String :=
  e.level.name ++ String.ofList (List.replicate (5 - e.level.name.length) ' ')

/-- The event as one line for a terminal. -/
def coloured (e : Event) : String :=
  s!"\x1b[0m[\x1b[{e.level.colour};1m{e.levelColumn}\x1b[0m] {e.source} - {e.text}"

/-- The event is shown to a reader who asked so often for more. -/
def isShown (verbosity : Nat) (e : Event) : Bool :=
  e.level.rank ≤ (Level.ofVerbosity verbosity).rank

end Event

end BootImage.Log
