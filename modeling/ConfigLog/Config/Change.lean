import ConfigLog.Config.Load

set_option autoImplicit false

/-! # Changes of variables

A variable changes when it is set to a value that differs from its own. All listeners that it has at
that moment are told in the order of their numbers, with the old and the new value, and then the
value is stored: whoever reads the variable before sees the old one. What a listener does is a
program, which may do anything but set the variable whose change it is told of. Setting a variable
to the value that it has does nothing at all (`transition_of_same`).
-/

namespace ConfigLog.Config

/-! ## Running programs -/

/-- Runs a program, where variables are set with the given function. -/
def Program.run (assign : Assign) : Program → State → State
  | .done, s => s
  | .look next, s => (next s.view).run assign s
  | .remember note next, s => next.run assign (s.remember note)
  | .listen v tag told next, s =>
    let (s, i) := s.listen v { tag, told }
    (next i).run assign s
  | .listenWith v init tag told next, s =>
    let (s, i) := s.listenAfter (fun value => (init value).run assign) v { tag, told }
    (next i).run assign s
  | .unlisten v i next, s =>
    let (s, found) := s.unlisten v i
    (next found).run assign s
  | .unlistenAll v next, s => next.run assign (s.unlistenAll v)
  | .assign v value next, s =>
    let (s, changed) := assign s v value
    (next changed).run assign s
  | .load document next, s =>
    let (s, report) := s.loadWith assign document
    (next report).run assign s
  | .turn t next, s => next.run assign (s.turn t)

namespace State

/-- Tells a listener of a change. -/
def call (assign : Assign) (v : VariableId) (old new : Value) (s : State)
    (l : ListenerId × Listener) : State :=
  match s.value? v with
  | none => s
  | some seen =>
    let c : Call := { subject := v, listener := l.1, tag := l.2.tag, old, new, seen }
    (l.2.told old new).run assign (s.note c)

/-! ## Setting -/

/-- Sets a variable, where listeners set others with the given function. -/
def transition (assign : Assign) : Assign := fun s v new =>
  match s.vars[v]? with
  | none => (s, false)
  | some x =>
    if x.locked then ({ s with stuck := true }, false)
    else if x.value.same new then (s, false)
    else ((x.listeners.foldl (call assign v x.value new) (s.mark v)).commit v new, true)

theorem transition_of_same {assign : Assign} {s : State} {v : VariableId} {x : Variable}
    {new : Value} (hx : s.vars[v]? = some x) (hc : x.locked = false)
    (h : x.value.same new = true) : transition assign s v new = (s, false) := by
  simp [transition, hx, hc, h]

/-- A change marks the variable, tells its listeners and puts up the new value. -/
theorem transition_of_ne {assign : Assign} {s : State} {v : VariableId} {x : Variable} {new : Value}
    (hx : s.vars[v]? = some x) (hc : x.locked = false) (hn : x.value.same new = false) :
    transition assign s v new
      = ((x.listeners.foldl (call assign v x.value new) (s.mark v)).commit v new, true) := by
  simp [transition, hx, hc, hn]

/-- Sets a variable, with a bound on how deep changes bring about others. -/
def assignWithin : Nat → Assign
  | 0 => fun s _ _ => ({ s with stuck := true }, false)
  | depth + 1 => transition (assignWithin depth)

/-- Sets a variable. Each change that brings about another one keeps its own variable on the way, so
there are never more at once than there are variables. -/
def assign : Assign := fun s v new => assignWithin (s.vars.size + 1) s v new

/-- Calls a listener of a variable apart from any change, and tells whether it was there. -/
def callListener (s : State) (v : VariableId) (i : ListenerId) (old new : Value) : State × Bool :=
  match s.listener? v i with
  | none => (s, false)
  | some l => (call assign v old new s (i, l), true)

/-- Looks at the value of a variable and adds a listener to it, which is then told of every later
change. -/
def listenWith (s : State) (v : VariableId) (init : Value → Program) (l : Listener) :
    State × ListenerId :=
  s.listenAfter (fun value => (init value).run assign) v l

/-! ## Setting from outside -/

/-- Sets a variable from a text. -/
def setText (s : State) (v : VariableId) (text : String) : State × Except ConvertError Bool :=
  s.assignText assign v text

/-- Sets a variable from a document node. -/
def setNode (s : State) (v : VariableId) (n : Node) : State × Except ConvertError Bool :=
  s.assignNode assign v n

/-- Applies a document to the registered variables. -/
def load (s : State) (document : Node) : State × LoadReport := s.loadWith assign document

end State

end ConfigLog.Config
