import ConfigLog.Logging.Adjust
import ConfigLog.Logging.Plan

set_option autoImplicit false

/-! # Reconciliation

`State.reconcile` carries out the plan from one set of definitions to another. Each definition
stands for itself: what can fail is done before the logger is touched, and a definition that fails
stops none of the others.
-/

namespace ConfigLog.Logging

/-- What came of a reconciliation. -/
structure Reconciliation where
  applied : List String := []
  disabled : List String := []
  failed : List (String × LogError) := []
  deriving Repr

/-- The plan was empty. -/
def Reconciliation.isEmpty (r : Reconciliation) : Bool :=
  r.applied.isEmpty && r.disabled.isEmpty && r.failed.isEmpty

namespace State

/-! ## Building -/

/-- The pattern of a definition; an empty one counts as none. -/
def definedPattern (s : State) (source : Option String) :
    State × Except LogError (Option Pattern) :=
  match source.filter (· != "") with
  | none => (s, .ok none)
  | some source =>
    match s.parse source with
    | (s, .error e) => (s, .error e)
    | (s, .ok p) => (s, .ok (some p))

/-- The appender of a definition. -/
def build (s : State) (d : AppenderDefinition) : State × Except LogError Appender :=
  match s.definedPattern d.pattern with
  | (s, .error e) => (s, .error e)
  | (s, .ok p) =>
    match s.openSink d.destination with
    | (s, .error e) => (s, .error e)
    | (s, .ok sink) =>
      (s, .ok { sink, level := d.level.getD .debug, pattern := p.getD default, own := p.isSome })

/-- The appenders of a list of definitions, up to the first one that fails. -/
def buildAll (s : State) : List AppenderDefinition → State × Except LogError (List Appender)
  | [] => (s, .ok [])
  | d :: r =>
    match s.build d with
    | (s, .error e) => (s, .error e)
    | (s, .ok a) =>
      match s.buildAll r with
      | (s, .error e) => (s, .error e)
      | (s, .ok as) => (s, .ok (a :: as))

/-! ## Carrying out -/

/-- Adds an appender and attaches it. -/
def attachNew (i : LoggerId) (s : State) (a : Appender) : State :=
  let (s, n) := s.addAppender a
  s.attach i n

/-- Makes a logger what a definition says. The pattern stays when the definition has none. -/
def install (s : State) (i : LoggerId) (p : Option Pattern) (level : Level) (as : List Appender) :
    State :=
  let s := match p with
    | some p => s.adoptPattern i p
    | none => s
  as.foldl (attachNew i) ((s.setLevel i level).clearAppenders i)

/-- Makes the logger of a definition what the definition says. -/
def apply (s : State) (m : ManagerId) (d : Definition) : State × Except LogError Unit :=
  match s.definedPattern d.pattern with
  | (s, .error e) => (s, .error e)
  | (s, .ok p) =>
    match s.buildAll d.appenders with
    | (s, .error e) => (s, .error e)
    | (s, .ok as) =>
      let (s, i) := s.obtain m d.name
      (s.install i p (d.level.getD .debug) as, .ok ())

/-- Switches the logger of a name off and takes its appenders away. -/
def disable (s : State) (m : ManagerId) (name : String) : State :=
  let (s, i) := s.obtain m name
  (s.setLevel i .off).clearAppenders i

/-- A record about a step of a reconciliation, from a line of the code. -/
def stepRecord (line : Nat) (level : FacadeLevel) (name outcome : String) : Record where
  level := level
  target := "livelog::logging::reconcile"
  message := "logger " ++ name ++ " " ++ outcome
  file := "src/logging/reconcile.rs"
  line := line

/-- Carries out one step of a plan. -/
def perform (m : ManagerId) (done : State × Reconciliation) (a : Action) : State × Reconciliation :=
  let (s, report) := done
  match a with
  | .apply d =>
    match s.apply m d with
    | (s, .ok ()) =>
      (s.emit (stepRecord 71 .info d.name "configured"),
        { report with applied := report.applied ++ [d.name] })
    | (s, .error e) =>
      (s.emit (stepRecord 75 .error d.name ("not configured: " ++ e.message)),
        { report with failed := report.failed ++ [(d.name, e)] })
  | .disable name =>
    ((s.disable m name).emit (stepRecord 83 .info name "disabled"),
      { report with disabled := report.disabled ++ [name] })

/-- Leads the loggers of a manager from an old set of definitions to a new one. -/
def reconcile (s : State) (m : ManagerId) (old new : Definitions) : State × Reconciliation :=
  (plan old new).foldl (perform m) (s, {})

end State

/-! ## Turns -/

/-- Something that is done to loggers while variables change. -/
inductive Turn where
  /-- Something is reported to the facade. -/
  | report (r : Record)
  /-- An event is handed to a logger. -/
  | log (i : LoggerId) (level : Level) (e : Event)
  /-- The loggers of a manager are led from one set of definitions to another. -/
  | reconcile (m : ManagerId) (old new : Definitions)

/-- What becomes of the loggers in a turn. -/
def State.turn (s : State) : Turn → State
  | .report r => s.emit r
  | .log i level e => s.log i level e
  | .reconcile m old new => (s.reconcile m old new).1

end ConfigLog.Logging
