import ConfigLog.Keyed
import ConfigLog.Logging.Bridge

set_option autoImplicit false

/-! # Adjusting loggers and appenders

The operations that change thresholds, patterns and attachments, and that create loggers on demand.
A malformed pattern is never installed: it is reported and what was there stays.
-/

namespace ConfigLog.Logging.State

/-! ## Patterns -/

/-- The record about a malformed pattern. -/
def malformedRecord (source : String) : Record where
  level := .warn
  target := "livelog::logging::formatter"
  message := "log pattern " ++ Text.quote source ++ " is malformed"
  file := "src/logging/formatter.rs"
  line := 244

/-- Compiles a pattern and reports when it is malformed. -/
def compile (s : State) (source : String) : State × Pattern :=
  let p := Pattern.compile s.times source
  (if p.malformed then s.emit (malformedRecord source) else s, p)

/-- Compiles a pattern that has to be well formed. -/
def parse (s : State) (source : String) : State × Except LogError Pattern :=
  match s.compile source with
  | (s, p) => if p.malformed then (s, .error (.malformedPattern source)) else (s, .ok p)

/-! ## Appenders -/

/-- Opens the sink of a destination. -/
def openSink (s : State) : Destination → State × Except LogError Sink
  | .stdout => (s, .ok .stdout)
  | .file path =>
    match s.files.openAppend path with
    | (files, .error e) => ({ s with files }, .error (.sinkFailed e.message))
    | (files, .ok handle) => ({ s with files }, .ok (.file path (some handle)))

/-- Adds an appender with a new sink. -/
def newAppender (s : State) (d : Destination) : State × Except LogError AppenderId :=
  match s.openSink d with
  | (s, .error e) => (s, .error e)
  | (s, .ok sink) =>
    let (s, i) := s.addAppender { sink }
    (s, .ok i)

/-- Sets the threshold of an appender. -/
def setAppenderLevel (s : State) (i : AppenderId) (level : Level) : State :=
  s.modifyAppender i ({ · with level })

/-- Gives an appender a pattern of its own. -/
def setAppenderPattern (s : State) (i : AppenderId) (p : Pattern) : State × Except LogError Unit :=
  match s.appenders[i]? with
  | none => (s, .ok ())
  | some a =>
    match a.setPattern p with
    | .error e => (s, .error e)
    | .ok a => (s.modifyAppender i fun _ => a, .ok ())

/-- Closes the file of an appender and opens it again. -/
def reopenWith (report : Report) (s : State) (i : AppenderId) : State × Except LogError Unit :=
  match s.appenders[i]? with
  | some { sink := .file path _, .. } =>
    match s.openAgain i path with
    | (s, .error e) => (s, .error (.sinkFailed e.message))
    | (s, .ok _) => (report (reopenedRecord path) s, .ok ())
  | _ => (s, .ok ())

/-- Closes the file of an appender, opens it again and reports that to the facade. -/
def reopen (s : State) (i : AppenderId) : State × Except LogError Unit :=
  s.reopenWith (fun r s => s.emit r) i

/-- A sink goes out of order for a reason, or is in order again. -/
def setBroken (s : State) (i : AppenderId) (broken : Option String) : State :=
  s.modifyAppender i ({ · with broken })

/-! ## Loggers -/

/-- Sets the threshold of a logger. -/
def setLevel (s : State) (i : LoggerId) (level : Level) : State :=
  s.modifyLogger i ({ · with level })

/-- Gives a pattern to a logger and to those of its appenders that have none of their own. -/
def adoptPattern (s : State) (i : LoggerId) (p : Pattern) : State :=
  (s.logger i).appenders.foldl (fun s a => s.modifyAppender a (·.inherit p))
    (s.modifyLogger i ({ · with pattern := p }))

/-- The record about a pattern that a logger turned down. -/
def rejectedRecord (logger source : String) : Record where
  level := .error
  target := "livelog::logging::logger"
  message := "logger " ++ logger ++ ": rejecting malformed pattern " ++ Text.quote source
  file := "src/logging/logger.rs"
  line := 72

/-- Gives a logger a pattern; a malformed one is turned down. -/
def setPattern (s : State) (i : LoggerId) (p : Pattern) : State × Except LogError Unit :=
  if p.malformed then
    (s.emit (rejectedRecord (s.logger i).name p.source), .error (.malformedPattern p.source))
  else (s.adoptPattern i p, .ok ())

/-- Attaches an appender, which takes the pattern of the logger unless it has its own. -/
def attach (s : State) (i : LoggerId) (a : AppenderId) : State :=
  (s.modifyAppender a (·.inherit (s.logger i).pattern)).modifyLogger i
    fun l => { l with appenders := l.appenders ++ [a] }

/-- Detaches an appender as often as it is attached, and tells whether it was. -/
def detach (s : State) (i : LoggerId) (a : AppenderId) : State × Bool :=
  (s.modifyLogger i fun l => { l with appenders := l.appenders.filter (· != a) },
    (s.logger i).appenders.contains a)

/-- Detaches all appenders. -/
def clearAppenders (s : State) (i : LoggerId) : State :=
  s.modifyLogger i ({ · with appenders := [] })

/-! ## Managers -/

/-- The record about a new logger. -/
def createdRecord (name : String) : Record where
  level := .debug
  target := "livelog::logging::manager"
  message := "creating logger " ++ name
  file := "src/logging/manager.rs"
  line := 67

/-- Puts a logger into a manager that has none of its name. -/
def register (s : State) (m : ManagerId) (name : String) (i : LoggerId) : State :=
  { s with managers := s.managers.modify m fun r =>
      { r with loggers := Keyed.insert name i r.loggers } }

/-- The logger of a name, created when the manager has none. A created logger falls back to the
root. -/
def obtain (s : State) (m : ManagerId) (name : String) : State × LoggerId :=
  match (s.manager m).find? name with
  | some i => (s, i)
  | none =>
    let (s, i) := s.addLogger { name, fallback := some (s.manager m).root }
    ((s.register m name i).emit (createdRecord name), i)

/-- The names of the loggers of a manager, in ascending order. -/
def loggerNames (s : State) (m : ManagerId) : List String := (s.manager m).loggers.map (·.1)

end ConfigLog.Logging.State
