import ConfigLog.Text.Blank

set_option autoImplicit false

/-! # Log levels

The severity of a record and the threshold of a logger or an appender. `off` is the threshold that
nothing reaches.
-/

namespace ConfigLog.Logging

/-- The levels in ascending order. -/
inductive Level where
  | debug
  | info
  | warn
  | error
  | fatal
  | off
  deriving DecidableEq, Repr, Inhabited

namespace Level

/-- The number of a level; a higher one is more severe. -/
def rank : Level → Nat
  | debug => 1
  | info => 2
  | warn => 3
  | error => 4
  | fatal => 5
  | off => 6

instance : LE Level := ⟨fun a b => a.rank ≤ b.rank⟩

instance (a b : Level) : Decidable (a ≤ b) := inferInstanceAs (Decidable (a.rank ≤ b.rank))

/-- The order of two levels. -/
def compare (a b : Level) : Ordering := Ord.compare a.rank b.rank

/-- The name of a level. -/
def name : Level → String
  | debug => "DEBUG"
  | info => "INFO"
  | warn => "WARN"
  | error => "ERROR"
  | fatal => "FATAL"
  | off => "OFF"

/-- The name of a level as a word. -/
def word : Level → String
  | debug => "Debug"
  | info => "Info"
  | warn => "Warn"
  | error => "Error"
  | fatal => "Fatal"
  | off => "Off"

/-- All levels. -/
def all : List Level := [debug, info, warn, error, fatal, off]

/-- The level of a name in any case, with blanks around it left out. -/
def ofName? (text : String) : Option Level :=
  all.find? fun l => Text.equalIgnoringCase (Text.trim text) l.name

end Level

/-- The levels of records that come in through the facade. -/
inductive FacadeLevel where
  | trace
  | debug
  | info
  | warn
  | error
  deriving DecidableEq, Repr

namespace FacadeLevel

/-- The level that a record of the facade has here. -/
def toLevel : FacadeLevel → Level
  | trace => .debug
  | debug => .debug
  | info => .info
  | warn => .warn
  | error => .error

/-- The name of a level of the facade. -/
def name : FacadeLevel → String
  | trace => "TRACE"
  | debug => "DEBUG"
  | info => "INFO"
  | warn => "WARN"
  | error => "ERROR"

end FacadeLevel

end ConfigLog.Logging
