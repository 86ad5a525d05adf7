import ConfigLog.Logging.Definition

set_option autoImplicit false

/-! # Plans

The steps that lead from one set of definitions to another: new and changed definitions are applied,
in name order, and then the names that are gone are disabled.
-/

namespace ConfigLog.Logging

/-- One step of a plan. -/
inductive Action where
  /-- Create or rebuild the logger of a definition. -/
  | apply (definition : Definition)
  /-- Switch the logger of a name off and take its appenders away. -/
  | disable (name : String)
  deriving DecidableEq, Repr

/-- The name of the logger that a step is about. -/
def Action.name : Action → String
  | apply d => d.name
  | disable name => name

/-- A set has a definition that asks for the same logger. -/
def Definitions.agrees (ds : Definitions) (d : Definition) : Bool :=
  match ds.get? d.name with
  | some e => e.same d
  | none => false

/-- The steps from an old set of definitions to a new one. -/
def plan (old new : Definitions) : List Action :=
  (new.toList.filter fun d => !old.agrees d).map .apply
    ++ (old.toList.filter fun d => !new.contains d.name).map fun d => .disable d.name

end ConfigLog.Logging
