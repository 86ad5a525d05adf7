import ConfigLog.Files.Store
import ConfigLog.Logging.Appender

set_option autoImplicit false

/-! # Loggers and managers

A logger has a name, a threshold and appenders. A manager holds loggers under their names, one of
them the root. Loggers and appenders are shared, so they live in one state and are known by their
numbers; the state also keeps what has been written, in order.
-/

namespace ConfigLog.Logging

/-- The number of an appender. -/
abbrev AppenderId := Nat

/-- The number of a logger. -/
abbrev LoggerId := Nat

/-- The number of a manager. -/
abbrev ManagerId := Nat

/-! ## Loggers -/

/-- A logger. -/
structure Logger where
  name : String
  /-- Events below this level are not for the logger. -/
  level : Level := .debug
  /-- The pattern for appenders that have none of their own. -/
  pattern : Pattern := .default
  /-- The appenders in the order of their attachment. -/
  appenders : List AppenderId := []
  /-- The logger that gets the events while there are no appenders. -/
  fallback : Option LoggerId := none
  deriving DecidableEq, Repr, Inhabited

namespace Logger

/-- The logger takes events of a level. Nobody takes events at `off`. -/
def accepts (l : Logger) (level : Level) : Bool := level != .off && l.level ≤ level

/-- The logger on one line. -/
def display (l : Logger) : String :=
  "Logger \x7b name: " ++ Text.quote l.name ++ ", level: " ++ l.level.word ++ ", pattern: "
    ++ Text.quote l.pattern.source ++ ", appenders: "
    ++ String.ofList (Number.natText l.appenders.length) ++ " \x7d"

end Logger

/-! ## Managers -/

/-- The name of the root logger. -/
def rootName : String := "root"

/-- A manager of loggers. -/
structure Manager where
  root : LoggerId
  /-- The loggers with their names, in ascending order. -/
  loggers : List (String × LoggerId)
  deriving DecidableEq, Repr, Inhabited

/-- The logger of a name. -/
def Manager.find? (m : Manager) (name : String) : Option LoggerId := m.loggers.lookup name

/-! ## The state -/

/-- An attempt to write a text. -/
structure Attempt where
  appender : AppenderId
  text : String
  /-- The text shows how long the program has been running. -/
  timed : Bool
  /-- The sink took the text. -/
  taken : Bool
  deriving DecidableEq, Repr

/-- All loggers, appenders and managers, and what has become of the events. -/
structure State where
  files : Files.Store
  appenders : Array Appender := #[]
  loggers : Array Logger := #[]
  managers : Array Manager := #[]
  /-- What the appenders have tried to write, in order. -/
  attempts : List Attempt := []
  /-- The lines on standard error. -/
  complaints : List String := []
  /-- What events get that are made now. -/
  stamp : Stamp := {}
  /-- How times are written. -/
  times : TimeFormat := .universal
  /-- The manager that gets the records of the program itself. -/
  facade : Option ManagerId := none
  /-- A record of the facade is being written. -/
  bridging : Bool := false

namespace State

/-- A logger by its number; a number without a logger gives one that does nothing. -/
def logger (s : State) (i : LoggerId) : Logger := s.loggers[i]?.getD { name := "" }

/-- A manager by its number. -/
def manager (s : State) (m : ManagerId) : Manager := s.managers[m]?.getD default

/-- Changes an appender. -/
def modifyAppender (s : State) (i : AppenderId) (f : Appender → Appender) : State :=
  { s with appenders := s.appenders.modify i f }

/-- Changes a logger. -/
def modifyLogger (s : State) (i : LoggerId) (f : Logger → Logger) : State :=
  { s with loggers := s.loggers.modify i f }

theorem logger_modifyLogger_of_ne (s : State) {i j : LoggerId} (h : i ≠ j) (f : Logger → Logger) :
    (s.modifyLogger i f).logger j = s.logger j := by
  simp [modifyLogger, logger, Array.getElem?_modify, h]

theorem logger_modifyLogger_self (s : State) {i : LoggerId} (h : i < s.loggers.size)
    (f : Logger → Logger) : (s.modifyLogger i f).logger i = f (s.logger i) := by
  simp only [modifyLogger, logger, Array.getElem?_modify, Array.getElem?_eq_getElem h]
  rfl

/-- Adds an appender. -/
def addAppender (s : State) (a : Appender) : State × AppenderId :=
  ({ s with appenders := s.appenders.push a }, s.appenders.size)

/-- Adds a logger. -/
def addLogger (s : State) (l : Logger) : State × LoggerId :=
  ({ s with loggers := s.loggers.push l }, s.loggers.size)

/-- Adds a manager with a root logger on standard output. -/
def addManager (s : State) : State × ManagerId :=
  let (s, a) := s.addAppender { sink := .stdout }
  let (s, root) := s.addLogger { name := rootName, appenders := [a] }
  ({ s with managers := s.managers.push { root, loggers := [(rootName, root)] } }, s.managers.size)

/-! ## Definitions of what is there -/

/-- The definition that a logger answers to. The level is always given, the pattern only when it is
not the default one. -/
def definition (s : State) (i : LoggerId) : Definition where
  name := (s.logger i).name
  level := some (s.logger i).level
  pattern :=
    if (s.logger i).pattern.source == Pattern.defaultSource then none
    else some (s.logger i).pattern.source
  appenders := (s.logger i).appenders.filterMap fun a => s.appenders[a]?.map (·.definition)

/-- The definitions of all loggers of a manager. -/
def definitions (s : State) (m : ManagerId) : Definitions :=
  .ofList ((s.manager m).loggers.map fun e => s.definition e.2)

end State

end ConfigLog.Logging
