import ConfigLog.Logging.State

set_option autoImplicit false

/-! # Delivery of events

`State.log` hands an event to a logger. The appenders that get it are those of the logger, or of its
fallback while it has none; each renders the event with its own pattern and the name of the logger
that was called. A sink that fails stops nobody else: the failure is reported as a record of the
program itself, and what becomes of such records is a parameter here.
-/

namespace ConfigLog.Logging

/-- A record about the program itself. -/
structure Record where
  level : FacadeLevel
  /-- The part of the program that the record is from. -/
  target : String
  message : String
  /-- The file of the code that the record is from, if it is known. -/
  file : String := ""
  line : Nat := 0
  deriving DecidableEq, Repr

/-- The event that is made of a record. -/
def Record.event (r : Record) (stamp : Stamp) : Event where
  file := r.file
  line := r.line
  message := r.message
  threadId := stamp.threadId
  threadName := stamp.threadName
  time := stamp.time
  elapsed := stamp.elapsed

/-- What becomes of a record. -/
abbrev Report := Record → State → State

namespace State

/-! ## One appender -/

/-- The record about a file that was opened again. -/
def reopenedRecord (path : String) : Record where
  level := .debug
  target := "livelog::logging::appender::file"
  message := "reopened log file " ++ path
  file := "src/logging/appender/file.rs"
  line := 80

/-- Opens the file of an appender again, after closing what was open. -/
def openAgain (s : State) (i : AppenderId) (path : String) : State × Except Files.FileError Nat :=
  match s.files.openAppend path with
  | (files, .error e) =>
    ({ s with files }.modifyAppender i ({ · with sink := .file path none }), .error e)
  | (files, .ok handle) =>
    ({ s with files }.modifyAppender i ({ · with sink := .file path (some handle) }), .ok handle)

/-- Puts a text into a sink that is there, which appends it to a node or shows it elsewhere, unless
the sink turns it down for a reason. -/
def put (s : State) (broken : Option String) (handle : Option Nat) (text : String) :
    State × Except String Unit :=
  match broken, handle with
  | some reason, _ => (s, .error reason)
  | none, some handle => ({ s with files := s.files.append handle text }, .ok ())
  | none, none => (s, .ok ())

/-- Gives a text to the sink of an appender. A file that is not open is opened first, and then the
result is its path. -/
def give (s : State) (i : AppenderId) (a : Appender) (text : String) :
    State × Except String (Option String) :=
  match a.sink with
  | .file path none =>
    match s.openAgain i path with
    | (s, .error e) => (s, .error e.message)
    | (s, .ok handle) =>
      let (s, result) := s.put a.broken (some handle) text
      (s, result.map fun () => some path)
  | sink =>
    let (s, result) := s.put a.broken sink.handle? text
    (s, result.map fun () => none)

/-- Notes an attempt to write. -/
def note (s : State) (a : Attempt) : State := { s with attempts := s.attempts ++ [a] }

/-- Hands an event to an appender, with the name of the logger to print. -/
def hand (report : Report) (s : State) (i : AppenderId) (logger : String) (level : Level)
    (e : Event) : State × Except LogError Unit :=
  match s.appenders[i]? with
  | none => (s, .ok ())
  | some a =>
    if a.accepts level then
      let text := a.pattern.render s.times logger level e
      let attempt (taken : Bool) : Attempt :=
        { appender := i, text, timed := a.pattern.isTimed, taken }
      match s.give i a text with
      | (s, .error reason) => (s.note (attempt false), .error (.sinkFailed reason))
      | (s, .ok none) => (s.note (attempt true), .ok ())
      | (s, .ok (some path)) => (report (reopenedRecord path) (s.note (attempt true)), .ok ())
    else (s, .ok ())

/-! ## Loggers -/

/-- The appenders that get an event of a level when a logger is called. -/
def receivers (s : State) (i : LoggerId) (level : Level) : List AppenderId :=
  let l := s.logger i
  if !l.accepts level then []
  else if !l.appenders.isEmpty then l.appenders
  else match l.fallback with
    | some root => if (s.logger root).accepts level then (s.logger root).appenders else []
    | none => []

/-- The record about an appender that failed. -/
def failedRecord (logger : String) (e : LogError) : Record where
  level := .error
  target := "livelog::logging::logger"
  message := "logger " ++ logger ++ ": appender failed: " ++ e.message
  file := "src/logging/logger.rs"
  line := 145

/-- Hands an event to one of the appenders of a logger and reports a failure. -/
def handOne (report : Report) (logger : String) (level : Level) (e : Event) (s : State)
    (i : AppenderId) : State :=
  match s.hand report i logger level e with
  | (s, .ok ()) => s
  | (s, .error error) => report (failedRecord logger error) s

/-- Hands an event to a logger. -/
def logWith (report : Report) (s : State) (i : LoggerId) (level : Level) (e : Event) : State :=
  (s.receivers i level).foldl (handOne report (s.logger i).name level e) s

end State

end ConfigLog.Logging
