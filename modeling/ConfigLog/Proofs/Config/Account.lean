import ConfigLog.Config.Moments
import ConfigLog.Config.Registry

set_option autoImplicit false

/-! # Accounts of changes

An account relates a state, the moments after it and the last state. What holds of the single
instructions of programs holds of whole programs (`Account.run`), of telling listeners
(`Account.calls`) and of applying documents (`Account.load`).
-/

namespace ConfigLog.Config.State

/-! ## Applying documents -/

variable {assign : Assign} {moments : Moments} {s : State}

/-- The report that goes along has no part in what becomes of the state. -/
theorem applySetting_fst (s : State) (r : LoadReport) (setting : String × Node) :
    (applySetting assign (s, r) setting).1 = s.applied assign setting := by
  simp only [applied, applySetting]
  split
  · rfl
  · split <;> simp [*]

theorem foldl_applySetting_fst (settings : List (String × Node)) (s : State) (r : LoadReport) :
    (settings.foldl (applySetting assign) (s, r)).1 = settings.foldl (applied assign) s := by
  induction settings generalizing s r with
  | nil => rfl
  | cons a as ih =>
      rw [List.foldl_cons, List.foldl_cons, ← applySetting_fst s r a]
      exact ih _ _

/-- A document is applied by reporting what is passed over, applying all settings and reporting what
came of it. -/
theorem loadWith_fst (s : State) (document : Node) :
    (s.loadWith assign document).1
      = ((flatten document).foldl (applied assign) (s.announced document)).emit
          (appliedRecord (s.loadWith assign document).2) := by
  rw [← foldl_applySetting_fst _ _ { invalid := invalidPaths document }]
  rfl

theorem applied_of_lookup {name : String} {v : VariableId} (h : s.names.lookup name = some v)
    (n : Node) : s.applied assign (name, n) = (s.assignNode assign v n).1 := by
  simp only [applied, applySetting, h]
  split <;> simp [*]

theorem applied_of_lookup_eq_none {name : String} (h : s.names.lookup name = none) (n : Node) :
    s.applied assign (name, n) = s := by
  simp only [applied, applySetting, h]

/-! ## Accounts -/

/-- A statement about a state, the moments after it and the last state. -/
abbrev Account := State → List State → State → Prop

/-- An account that goes on from step to step, and that all instructions keep but those that set
variables, apply documents or look at a value before they listen. -/
structure Account.Closed (R : Account) : Prop where
  start : ∀ s, R s [] s
  append : ∀ {s t u σ τ}, R s σ t → R t τ u → R s (σ ++ τ) u
  turn : ∀ (s : State) (t : Logging.Turn), R s [s.turn t] (s.turn t)
  remember : ∀ (s : State) (note : Value), R s [s.remember note] (s.remember note)
  listen : ∀ (s : State) (v : VariableId) (l : Listener), R s [(s.listen v l).1] (s.listen v l).1
  unlisten : ∀ (s : State) (v : VariableId) (i : ListenerId),
    R s [(s.unlisten v i).1] (s.unlisten v i).1
  unlistenAll : ∀ (s : State) (v : VariableId), R s [s.unlistenAll v] (s.unlistenAll v)

/-- An account of whole looks: what is said of what is done while somebody looks at a variable is
said of the look and the listener that it ends with as well. -/
structure Account.Looks (R : Account) : Prop where
  stuck : ∀ s : State, R s [{ s with stuck := true }] { s with stuck := true }
  look : ∀ {s t : State} {σ : List State} {v : VariableId} {x : Variable} (l : Listener),
    s.vars[v]? = some x → x.locked = false → R (s.pin v) σ t →
    R s (s.pin v :: σ ++ [(t.listen v l).1, (t.listen v l).1.unpin v]) ((t.listen v l).1.unpin v)

/-- An account of all that a way of setting variables does. -/
def Account.Covers (R : Account) (assign : Assign) (moments : Moments) : Prop :=
  ∀ s v value, R s (moments s v value) (assign s v value).1

namespace Account

variable {R : Account} {v : VariableId}

theorem Closed.emit (hR : R.Closed) (s : State) (r : Logging.Record) : R s [s.emit r] (s.emit r) :=
  hR.turn s (.report r)

/-- What holds of all steps of a fold holds of the fold. -/
theorem foldl {α : Type} {step : State → α → State} {ms : State → α → List State} (hR : R.Closed)
    (as : List α) (h : ∀ s, ∀ a ∈ as, R s (ms s a) (step s a)) (s : State) :
    R s (foldMoments step ms s as) (as.foldl step s) := by
  induction as generalizing s with
  | nil => exact hR.start s
  | cons a as ih =>
      have hstep := h s a List.mem_cons_self
      have hrest := ih (fun s b hb => h s b (List.mem_cons_of_mem a hb)) (step s a)
      exact hR.append hstep hrest

theorem read (hR : R.Closed) (ha : R.Covers assign moments) (s : State) (v : VariableId)
    (x : Variable) (attempt : String) (result : Except ConvertError Value) :
    R s (readMoments moments s v x attempt result) (s.assignRead assign v x attempt result).1 := by
  cases result with
  | error e => exact hR.emit s _
  | ok value => exact ha s v value

theorem node (hR : R.Closed) (ha : R.Covers assign moments) (s : State) (v : VariableId)
    (n : Node) : R s (nodeMoments moments s v n) (s.assignNode assign v n).1 := by
  unfold nodeMoments assignNode
  cases s.vars[v]? with
  | none => exact hR.start s
  | some x => exact read hR ha s v x _ _

theorem text (hR : R.Closed) (ha : R.Covers assign moments) (s : State) (v : VariableId)
    (text : String) : R s (textMoments moments s v text) (s.assignText assign v text).1 := by
  unfold textMoments assignText
  cases s.vars[v]? with
  | none => exact hR.start s
  | some x => exact read hR ha s v x _ _

theorem setting (hR : R.Closed) (ha : R.Covers assign moments) (s : State)
    (setting : String × Node) :
    R s (settingMoments moments s setting) (s.applied assign setting) := by
  obtain ⟨name, n⟩ := setting
  unfold settingMoments
  cases hlookup : s.names.lookup name with
  | none =>
      rw [applied_of_lookup_eq_none hlookup]
      exact hR.start s
  | some v =>
      rw [applied_of_lookup hlookup]
      exact node hR ha s v n

theorem announced (hR : R.Closed) (s : State) (document : Node) :
    R s (foldMoments emit (fun s r => [s.emit r]) s ((findings document).filterMap findingRecord?))
      (s.announced document) :=
  foldl hR _ (fun s r _ => hR.emit s r) s

theorem load (hR : R.Closed) (ha : R.Covers assign moments) (s : State) (document : Node) :
    R s (loadMoments assign moments s document) (s.loadWith assign document).1 := by
  have hreports := announced hR s document
  have hsettings := foldl hR (flatten document) (fun s a _ => setting hR ha s a)
    (s.announced document)
  have hlast := hR.emit ((flatten document).foldl (applied assign) (s.announced document))
    (appliedRecord (s.loadWith assign document).2)
  rw [← loadWith_fst] at hlast
  exact hR.append (hR.append hreports hsettings) hlast

/-- What holds of all that somebody does who looks at a value holds of the look and the listener that
it ends with. -/
theorem listenAfter {init : Value → State → State} {ms : Value → State → List State}
    (hR : R.Closed) (hl : R.Looks) (h : ∀ value s, R s (ms value s) (init value s)) (s : State)
    (v : VariableId) (l : Listener) :
    R s (s.listenAfterMoments init ms v l) (s.listenAfter init v l).1 := by
  unfold listenAfterMoments State.listenAfter
  cases hx : s.vars[v]? with
  | none => exact hR.listen s v l
  | some x =>
      cases hc : x.locked with
      | true =>
          simp only [hc, if_true]
          exact hl.stuck s
      | false =>
          simp only [hc, Bool.false_eq_true, if_false]
          exact hl.look l hx hc (h x.value (s.pin v))

/-- What holds of the single instructions of a program holds of the program. -/
theorem run (hR : R.Closed) (hl : R.Looks) (ha : R.Covers assign moments) (p : Program)
    (s : State) : R s (p.moments assign moments s) (p.run assign s) := by
  induction p generalizing s with
  | done => exact hR.start s
  | look next ih => exact ih s.view s
  | remember note next ih => exact hR.append (hR.remember s note) (ih (s.remember note))
  | listen v tag told next _ ih => exact hR.append (hR.listen s v _) (ih _ _)
  | listenWith v init tag told next ihinit _ ih =>
      exact hR.append (listenAfter hR hl (fun value t => ihinit value t) s v _) (ih _ _)
  | unlisten v i next ih => exact hR.append (hR.unlisten s v i) (ih _ _)
  | unlistenAll v next ih => exact hR.append (hR.unlistenAll s v) (ih _)
  | assign v value next ih => exact hR.append (ha s v value) (ih _ _)
  | load document next ih => exact hR.append (load hR ha s document) (ih _ _)
  | turn t next ih => exact hR.append (hR.turn s t) (ih _)

/-- What holds of all that a listener does, and of the record of its call, holds of the call. -/
theorem call (hR : R.Closed) (hl : R.Looks) (ha : R.Covers assign moments) (old new : Value)
    (l : ListenerId × Listener)
    (hnote : ∀ (s : State) (c : Call), c.subject = v → c.listener = l.1 → R s [s.note c] (s.note c))
    (s : State) :
    R s (callMoments assign moments v old new s l) (State.call assign v old new s l) := by
  unfold callMoments State.call
  cases s.value? v with
  | none => exact hR.start s
  | some seen =>
      have hfirst := hnote s
        { subject := v, listener := l.1, tag := l.2.tag, old, new, seen } rfl rfl
      have hprogram := run hR hl ha (l.2.told old new)
        (s.note { subject := v, listener := l.1, tag := l.2.tag, old, new, seen })
      exact hR.append hfirst hprogram

/-- What holds of all that the listeners of a variable do, and of the records of their calls, holds
of telling them one after the other. -/
theorem calls (hR : R.Closed) (hl : R.Looks) (ha : R.Covers assign moments)
    (old new : Value) (ls : List (ListenerId × Listener))
    (hnote : ∀ (s : State) (c : Call), c.subject = v → (∃ l ∈ ls, c.listener = l.1) →
      R s [s.note c] (s.note c)) (s : State) :
    R s (foldMoments (State.call assign v old new) (callMoments assign moments v old new) s ls)
      (ls.foldl (State.call assign v old new) s) :=
  foldl hR ls (fun s l hmem => call hR hl ha old new l
    (fun s c hsubject hlistener => hnote s c hsubject ⟨l, hmem, hlistener⟩) s) s

end Account

end ConfigLog.Config.State
