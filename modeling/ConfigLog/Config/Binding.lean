import ConfigLog.Config.Registry

set_option autoImplicit false

/-! # Loggers by configuration

Binding a manager to the variable of the logger definitions makes its loggers what the variable says
and keeps them so, change after change.
-/

namespace ConfigLog.Config

/-- The name of the variable that holds the logger definitions. -/
def definitionsName : String := "logs"

/-- The tie between the variable and a manager. -/
structure Binding where
  subject : VariableId
  listener : ListenerId
  deriving DecidableEq, Repr

namespace State

/-- Leads the loggers of a manager to the value of a variable, starting from no definitions. -/
def reconcileAll (s : State) (v : VariableId) (m : Logging.ManagerId) : State :=
  match s.value? v with
  | some (.definitions ds) =>
    if ds.toList.isEmpty then s
    else { s with logging := (s.logging.reconcile m .empty ds).1 }
  | _ => s

/-- The listener that leads the loggers of a manager from one set of definitions to the next one. -/
def follower (m : Logging.ManagerId) : Listener where
  told
    | .definitions old, .definitions new => .turn (.reconcile m old new) .done
    | _, _ => .done

/-- Ties a manager to the variable of the logger definitions. -/
def bind (s : State) (m : Logging.ManagerId) : State × Except ConfigError Binding :=
  match s.obtain definitionsName .definitions (.definitions .empty) "logger definitions" with
  | (s, .error e) => (s, .error e)
  | (s, .ok v) =>
    let (s, i) := (s.reconcileAll v m).listen v (follower m)
    (s, .ok { subject := v, listener := i })

/-- Unties a manager; its loggers stay as they are. -/
def unbind (s : State) (b : Binding) : State × Bool := s.unlisten b.subject b.listener

end State

end ConfigLog.Config
