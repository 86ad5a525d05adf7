import ConfigLog.Config.Change

set_option autoImplicit false

/-! # The moments of a change

A change of a variable passes through many states: listeners are told one after the other, and each
may bring about changes of other variables. The moments of a change are all states that it passes
through after the first one, in order (`assignMoments`). They are listed by a second reading of the
definitions that set variables, apply documents, run programs and tell listeners. What somebody sees
who looks in between, and what is left when a listener never returns, is one of them.
-/

namespace ConfigLog.Config

namespace State

/-- The moments of setting a variable. -/
abbrev Moments := State → VariableId → Value → List State

/-- The moments of one step after the other. -/
def foldMoments {α : Type} (step : State → α → State) (moments : State → α → List State) :
    State → List α → List State
  | _, [] => []
  | s, a :: as => moments s a ++ foldMoments step moments (step s a) as

/-! ## Documents -/

/-- The moments of setting a variable to what has been read for it. -/
def readMoments (moments : Moments) (s : State) (v : VariableId) (x : Variable) (attempt : String)
    (result : Except ConvertError Value) : List State :=
  match result with
  | .error e => [s.emit (conversionRecord x attempt e)]
  | .ok value => moments s v value

/-- The moments of setting a variable from a document node. -/
def nodeMoments (moments : Moments) (s : State) (v : VariableId) (n : Node) : List State :=
  match s.vars[v]? with
  | none => []
  | some x => readMoments moments s v x "convert node into" (x.kind.ofNode n)

/-- The moments of setting a variable from a text. -/
def textMoments (moments : Moments) (s : State) (v : VariableId) (text : String) : List State :=
  match s.vars[v]? with
  | none => []
  | some x => readMoments moments s v x "parse text into" (x.kind.ofText text)

/-- The moments of applying one setting. -/
def settingMoments (moments : Moments) (s : State) (setting : String × Node) : List State :=
  match s.names.lookup setting.1 with
  | none => []
  | some v => nodeMoments moments s v setting.2

/-- What applying one setting makes of a state. -/
def applied (assign : Assign) (s : State) (setting : String × Node) : State :=
  (applySetting assign (s, {}) setting).1

/-- The state in which the settings of a document are applied: what is passed over has been
reported. -/
def announced (s : State) (document : Node) : State :=
  ((findings document).filterMap findingRecord?).foldl emit s

/-- The moments of applying a document. -/
def loadMoments (assign : Assign) (moments : Moments) (s : State) (document : Node) : List State :=
  foldMoments emit (fun s r => [s.emit r]) s ((findings document).filterMap findingRecord?)
    ++ foldMoments (applied assign) (settingMoments moments) (s.announced document)
      (flatten document)
    ++ [(s.loadWith assign document).1]

/-! ## Looking -/

/-- The moments of looking at a variable and adding a listener to it. -/
def listenAfterMoments (init : Value → State → State) (moments : Value → State → List State)
    (s : State) (v : VariableId) (l : Listener) : List State :=
  match s.vars[v]? with
  | none => [(s.listen v l).1]
  | some x =>
    if x.locked then [{ s with stuck := true }]
    else
      s.pin v :: moments x.value (s.pin v)
        ++ [((init x.value (s.pin v)).listen v l).1, (s.listenAfter init v l).1]

end State

/-! ## Programs -/

/-- The moments of a program. -/
def Program.moments (assign : Assign) (ms : State.Moments) : Program → State → List State
  | .done, _ => []
  | .look next, s => (next s.view).moments assign ms s
  | .remember note next, s => s.remember note :: next.moments assign ms (s.remember note)
  | .listen v tag told next, s =>
    let (t, i) := s.listen v { tag, told }
    t :: (next i).moments assign ms t
  | .listenWith v init tag told next, s =>
    let (t, i) := s.listenAfter (fun value => (init value).run assign) v { tag, told }
    s.listenAfterMoments (fun value => (init value).run assign)
        (fun value => (init value).moments assign ms) v { tag, told }
      ++ (next i).moments assign ms t
  | .unlisten v i next, s =>
    let (t, found) := s.unlisten v i
    t :: (next found).moments assign ms t
  | .unlistenAll v next, s => s.unlistenAll v :: next.moments assign ms (s.unlistenAll v)
  | .assign v value next, s =>
    let (t, changed) := assign s v value
    ms s v value ++ (next changed).moments assign ms t
  | .load document next, s =>
    let (t, report) := s.loadWith assign document
    s.loadMoments assign ms document ++ (next report).moments assign ms t
  | .turn r next, s => s.turn r :: next.moments assign ms (s.turn r)

namespace State

/-! ## Changes -/

/-- The moments of telling a listener of a change. -/
def callMoments (assign : Assign) (moments : Moments) (v : VariableId) (old new : Value) (s : State)
    (l : ListenerId × Listener) : List State :=
  match s.value? v with
  | none => []
  | some seen =>
    let s := s.note { subject := v, listener := l.1, tag := l.2.tag, old, new, seen }
    s :: (l.2.told old new).moments assign moments s

/-- The moments of setting a variable, where listeners set others with the given function. -/
def transitionMoments (assign : Assign) (moments : Moments) : Moments := fun s v new =>
  match s.vars[v]? with
  | none => []
  | some x =>
    if x.locked then [{ s with stuck := true }]
    else if x.value.same new then []
    else
      s.mark v :: foldMoments (call assign v x.value new)
          (callMoments assign moments v x.value new) (s.mark v) x.listeners
        ++ [(transition assign s v new).1]

/-- The moments of setting a variable, with a bound on how deep changes bring about others. -/
def momentsWithin : Nat → Moments
  | 0 => fun s _ _ => [{ s with stuck := true }]
  | depth + 1 => transitionMoments (assignWithin depth) (momentsWithin depth)

/-- The moments of setting a variable. -/
def assignMoments : Moments := fun s v new => momentsWithin (s.vars.size + 1) s v new

/-- The moments of looking at a variable and adding a listener to it. -/
def listenWithMoments (s : State) (v : VariableId) (init : Value → Program) (l : Listener) :
    List State :=
  s.listenAfterMoments (fun value => (init value).run assign)
    (fun value => (init value).moments assign assignMoments) v l

end State

end ConfigLog.Config
