import ConfigLog.Config.Name
import ConfigLog.Config.Program

set_option autoImplicit false

/-! # Variables and listeners

A variable has a name, a kind and a value of that kind, and listeners that are told of every change.
Variables are shared and known by their numbers; the registered ones are found by name.
-/

namespace ConfigLog.Config

/-- A call of a listener. -/
structure Call where
  subject : VariableId
  listener : ListenerId
  tag : Option String
  old : Value
  new : Value
  /-- The value that the variable had during the call. -/
  seen : Value

/-! ## Variables -/

/-- A variable. -/
structure Variable where
  name : String
  description : String
  kind : Kind
  value : Value
  /-- The listeners in the order of their numbers. -/
  listeners : List (ListenerId × Listener) := []
  /-- A change is on its way: listeners are being told, and the value is still the old one. -/
  changing : Bool := false
  /-- Somebody looks at the value and is going to listen to all that comes after it. -/
  pinned : Bool := false

/-- A variable that is not registered anywhere. -/
def Variable.new (name : String) (kind : Kind) (value : Value) (description : String) : Variable :=
  { name := normalName name, description, kind, value }

/-- The value may not be set. Whoever tries waits, and whoever it is that keeps the value from being
set waits forever. -/
def Variable.locked (x : Variable) : Bool := x.changing || x.pinned

/-- What can be seen of the variable. -/
def Variable.sight (x : Variable) : Sight where
  name := x.name
  description := x.description
  kind := x.kind
  value := x.value
  listeners := x.listeners.map (·.1)

/-- The value of a variable on one line: texts in quotes, all else as it is. -/
def displayValue : Value → String
  | .string s => Text.quote s
  | v => v.toText

/-- The variable on one line. -/
def Variable.display (x : Variable) : String :=
  "ConfigVar \x7b name: " ++ Text.quote x.name ++ ", description: " ++ Text.quote x.description
    ++ ", value: " ++ displayValue x.value ++ ", listeners: "
    ++ String.ofList (Number.natText x.listeners.length) ++ " \x7d"

/-! ## The state -/

/-- All variables, with the logging state that they may drive. -/
structure State where
  logging : Logging.State
  vars : Array Variable := #[]
  /-- The registered variables by their names, in ascending order. -/
  names : List (String × VariableId) := []
  nextListener : ListenerId := 1
  /-- What listeners have noted for later. -/
  memory : List Value := []
  /-- The calls of listeners, in order. -/
  calls : List Call := []
  /-- Somebody has tried to set a variable, or to look at it, and waits for something that comes
  after it. Such a call never ends, and what the state shows from then on means nothing. -/
  stuck : Bool := false

namespace State

/-- What can be seen. -/
def view (s : State) : View where
  logging := s.logging
  vars := s.vars.map (·.sight)
  names := s.names
  memory := s.memory

/-- Does something to the loggers. -/
def turn (s : State) (t : Logging.Turn) : State := { s with logging := s.logging.turn t }

/-- Reports a record to the facade. -/
def emit (s : State) (r : Logging.Record) : State := { s with logging := s.logging.emit r }

/-- Notes a value for later. -/
def remember (s : State) (note : Value) : State := { s with memory := s.memory ++ [note] }

/-- Records a call. -/
def note (s : State) (c : Call) : State := { s with calls := s.calls ++ [c] }

/-- Forgets all registered variables. -/
def clear (s : State) : State := { s with names := [] }

/-! ## Changing variables -/

/-- Changes a variable. -/
def modify (s : State) (v : VariableId) (f : Variable → Variable) : State :=
  { s with vars := s.vars.modify v f }

/-- Adds a variable that is not registered. -/
def add (s : State) (x : Variable) : State × VariableId :=
  ({ s with vars := s.vars.push x }, s.vars.size)

/-- The value of a variable. -/
def value? (s : State) (v : VariableId) : Option Value := s.vars[v]?.map (·.value)

/-- A change of a variable is on its way. -/
def isChanging (s : State) (v : VariableId) : Bool := ((s.vars[v]?).map (·.changing)).getD false

/-- A variable may not be set. -/
def isLocked (s : State) (v : VariableId) : Bool := ((s.vars[v]?).map (·.locked)).getD false

/-- The state in which a change of a variable is on its way. -/
def mark (s : State) (v : VariableId) : State := s.modify v ({ · with changing := true })

/-- The state in which a variable has its new value and may be set again. -/
def commit (s : State) (v : VariableId) (new : Value) : State :=
  s.modify v ({ · with value := new, changing := false })

/-- The state in which somebody looks at a variable. -/
def pin (s : State) (v : VariableId) : State := s.modify v ({ · with pinned := true })

/-- The state in which nobody looks at a variable. -/
def unpin (s : State) (v : VariableId) : State := s.modify v ({ · with pinned := false })

theorem getElem?_modify (s : State) (v w : VariableId) (f : Variable → Variable) :
    (s.modify v f).vars[w]? = if v = w then (s.vars[w]?).map f else s.vars[w]? :=
  Array.getElem?_modify

theorem value?_of_getElem? {s : State} {v : VariableId} {x : Variable} (h : s.vars[v]? = some x) :
    s.value? v = some x.value := by
  rw [value?, h]
  rfl

/-- A program sees the values that the variables have. -/
theorem value_view (s : State) (v : VariableId) : (s.view.vars[v]?).map (·.value) = s.value? v := by
  rw [view, Array.getElem?_map, Option.map_map]
  rfl

theorem isChanging_of_getElem? {s : State} {v : VariableId} {x : Variable}
    (h : s.vars[v]? = some x) : s.isChanging v = x.changing := by
  rw [isChanging, h]
  rfl

theorem isLocked_of_getElem? {s : State} {v : VariableId} {x : Variable}
    (h : s.vars[v]? = some x) : s.isLocked v = x.locked := by
  rw [isLocked, h]
  rfl

theorem changing_of_not_locked {x : Variable} (h : x.locked = false) :
    x.changing = false ∧ x.pinned = false := Bool.or_eq_false_iff.1 h

/-- What a change of a variable leaves as it is can be read off all variables as before. -/
theorem map_getElem?_modify {α : Type} {g : Variable → α} {f : Variable → Variable} {v : VariableId}
    {w : VariableId} (hf : v = w → ∀ x, g (f x) = g x) (s : State) :
    ((s.modify v f).vars[w]?).map g = (s.vars[w]?).map g := by
  rw [getElem?_modify]
  split
  · rename_i hv
    rw [Option.map_map]
    congr 1
    funext x
    exact hf hv x
  · rfl

/-! ## Changing the listeners -/

/-- Adds a listener to a variable. -/
def listen (s : State) (v : VariableId) (l : Listener) : State × ListenerId :=
  ({ s with nextListener := s.nextListener + 1 }.modify v
      fun x => { x with listeners := x.listeners ++ [(s.nextListener, l)] },
    s.nextListener)

/-- The listener of a variable with a number. -/
def listener? (s : State) (v : VariableId) (i : ListenerId) : Option Listener := do
  (← s.vars[v]?).listeners.lookup i

/-- Removes a listener from a variable and tells whether it was there. -/
def unlisten (s : State) (v : VariableId) (i : ListenerId) : State × Bool :=
  (s.modify v fun x => { x with listeners := x.listeners.filter (·.1 != i) },
    (s.listener? v i).isSome)

/-- Removes all listeners from a variable. -/
def unlistenAll (s : State) (v : VariableId) : State := s.modify v ({ · with listeners := [] })

/-- Lets somebody look at the value of a variable and adds a listener to it. Meanwhile the variable
may not be set. Whoever looks at a variable that is being changed or looked at waits forever. -/
def listenAfter (init : Value → State → State) (s : State) (v : VariableId) (l : Listener) :
    State × ListenerId :=
  match s.vars[v]? with
  | none => s.listen v l
  | some x =>
    if x.locked then ({ s with stuck := true }, s.nextListener)
    else
      let (s, i) := (init x.value (s.pin v)).listen v l
      (s.unpin v, i)

theorem listenAfter_of_not_locked (init : Value → State → State) {s : State} {v : VariableId}
    {x : Variable} (hx : s.vars[v]? = some x) (hc : x.locked = false) (l : Listener) :
    s.listenAfter init v l = (((init x.value (s.pin v)).listen v l).1.unpin v,
      ((init x.value (s.pin v)).listen v l).2) := by
  simp [listenAfter, hx, hc]

end State

end ConfigLog.Config
