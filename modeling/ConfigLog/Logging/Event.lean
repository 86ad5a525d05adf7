import ConfigLog.Calendar.Moment

set_option autoImplicit false

/-! # Log events -/

namespace ConfigLog.Logging

/-- What an event gets from the thread and the time at which it is made. -/
structure Stamp where
  threadId : Nat := 0
  threadName : String := ""
  time : Calendar.Moment := ⟨0, 0⟩
  /-- Milliseconds since the program started. -/
  elapsed : Nat := 0
  deriving Repr, DecidableEq, Inhabited

/-- One thing to be logged, and where and when it came about. -/
structure Event where
  file : String := ""
  line : Nat := 0
  message : String := ""
  threadId : Nat := 0
  threadName : String := ""
  taskId : Nat := 0
  time : Calendar.Moment := ⟨0, 0⟩
  /-- Milliseconds since the program started. -/
  elapsed : Nat := 0
  deriving Repr, DecidableEq, Inhabited

end ConfigLog.Logging
