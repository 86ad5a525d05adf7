import ConfigLog.Logging.Definition
import ConfigLog.Logging.Pattern

set_option autoImplicit false

/-! # Appenders

An appender renders events with a pattern and gives the text to a sink. Until it has a pattern of
its own it goes by that of the logger it is attached to.
-/

namespace ConfigLog.Logging

/-- Where the text of an appender goes. -/
inductive Sink where
  | stdout
  /-- A file by its path, with its node while it is open. -/
  | file (path : String) (handle : Option Nat)
  /-- A sink of the program around. -/
  | custom
  deriving DecidableEq, Repr

/-- The destination that a definition has for a sink. A sink of the program around counts as
standard output. -/
def Sink.destination : Sink → Destination
  | stdout => .stdout
  | file path _ => .file path
  | custom => .stdout

/-- The node that a sink writes to. -/
def Sink.handle? : Sink → Option Nat
  | file _ handle => handle
  | _ => none

/-- An appender. -/
structure Appender where
  sink : Sink
  /-- Events below this level are not for the appender. -/
  level : Level := .debug
  pattern : Pattern := .default
  /-- The pattern was given to the appender itself. -/
  own : Bool := false
  /-- Why the sink turns down every text, if it is out of order. -/
  broken : Option String := none
  deriving DecidableEq, Repr

namespace Appender

/-- The appender takes events of a level. -/
def accepts (a : Appender) (level : Level) : Bool := a.level ≤ level

/-- Takes the pattern of a logger, unless the appender has its own. -/
def inherit (a : Appender) (p : Pattern) : Appender := if a.own then a else { a with pattern := p }

/-- Gets a pattern of its own; a malformed one is turned down. -/
def setPattern (a : Appender) (p : Pattern) : Except LogError Appender :=
  if p.malformed then .error (.malformedPattern p.source)
  else .ok { a with pattern := p, own := true }

/-- The definition that the appender answers to. -/
def definition (a : Appender) : AppenderDefinition where
  destination := a.sink.destination
  level := some a.level
  pattern := if a.own then some a.pattern.source else none

end Appender

end ConfigLog.Logging
