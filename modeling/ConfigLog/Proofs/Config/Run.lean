import ConfigLog.Proofs.Config.Bound

set_option autoImplicit false

/-! # Runs of a bound manager

`State.run` is what happens after a manager has been bound: the variable of the definitions is set,
documents are applied, files change, events are logged. All passes over the manager make one
`History`, from the moment before the binding on (`history_run`).
-/

namespace ConfigLog.Config

open Logging (Action Definitions Pass allDone lastPattern)

/-- One thing that happens after a manager has been bound. -/
inductive Step where
  /-- The variable of the binding is set. -/
  | set (ds : Definitions)
  /-- A document is applied. -/
  | load (document : Node)
  /-- The files change by themselves, and time passes. -/
  | meanwhile (files : Files.Store) (stamp : Logging.Stamp)
  /-- An event is handed to a logger. -/
  | log (logger : Logging.LoggerId) (level : Logging.Level) (event : Logging.Event)

namespace State

variable {b : Binding} {m n : Nat} {s t : State} {ps : List Pass}

/-! ## Runs -/

/-- Does one step. -/
def step (b : Binding) (s : State) : Step → State
  | .set ds => (s.assign b.subject (.definitions ds)).1
  | .load document => (s.load document).1
  | .meanwhile files stamp => { s with logging := { s.logging with files, stamp } }
  | .log i level e => { s with logging := s.logging.log i level e }

/-- Does one step after the other. -/
def run (b : Binding) (s : State) (steps : List Step) : State := steps.foldl (step b) s

theorem moves_step (hs : s.Bound b m n) (a : Step) : ∃ ps, Moves b m n s ps (s.step b a) := by
  cases a with
  | set ds => exact tame_assign s b.subject (.definitions ds) hs fun _ => ⟨ds, rfl⟩
  | load document => exact moves_loadWith tame_assign hs document
  | meanwhile files stamp => exact ⟨[], moves_logging hs (.meanwhile (.start _) files stamp)⟩
  | log i level e => exact ⟨[], moves_logging hs (.log (.start _) i level e)⟩

theorem moves_run (hs : s.Bound b m n) (steps : List Step) :
    ∃ ps, Moves b m n s ps (s.run b steps) :=
  moves_foldl (step b) steps (fun _ hs a _ => moves_step hs a) hs

/-! ## Binding -/

/-- The binding that comes about when a manager is bound next. -/
def nextBinding (s : State) : Binding where
  subject := (s.find? definitionsName).getD s.vars.size
  listener := s.nextListener

/-- A manager may be bound. If the name of the definitions is registered, it is for a variable of
definitions. The listeners that there are leave the manager, the variable and what will be listening
alone, and their numbers have been given out. -/
structure Ready (m : Nat) (s : State) : Prop where
  intact : s.logging.Intact m
  subject : ∀ v, s.find? definitionsName = some v →
    ∃ x, s.vars[v]? = some x ∧ x.kind = .definitions ∧ ∃ ds, x.value = .definitions ds
  listeners : ∀ (v : Nat) (x : Variable), s.vars[v]? = some x → ∀ l ∈ x.listeners,
    l.1 < s.nextListener ∧ l.2.Spares s.nextBinding m s.logging.managers.size
  calls : ∀ c ∈ s.calls, c.listener < s.nextListener

theorem nextBinding_of_find? {v : VariableId} (h : s.find? definitionsName = some v) :
    s.nextBinding = { subject := v, listener := s.nextListener } := by
  rw [nextBinding, h]
  rfl

/-- The state with a new variable of definitions. -/
def withDefinitions (s : State) : State :=
  { s with
    vars := s.vars.push (.new (normalName definitionsName) .definitions (.definitions .empty)
      "logger definitions")
    names := Keyed.insert (normalName definitionsName) s.vars.size s.names }

theorem find?_withDefinitions (s : State) :
    s.withDefinitions.find? definitionsName = some s.vars.size :=
  Keyed.lookup_insert_self _ _ _

/-- The new variable has no listeners, and the others are as they were. -/
theorem ready_withDefinitions (hr : s.Ready m) (hf : s.find? definitionsName = none) :
    s.withDefinitions.Ready m := by
  have hb : s.withDefinitions.nextBinding = s.nextBinding := by
    rw [nextBinding_of_find? (find?_withDefinitions s), nextBinding, hf]
    rfl
  refine ⟨hr.intact, fun v hv => ?_, fun v x hx l hl => ?_, hr.calls⟩
  · obtain rfl : s.vars.size = v := Option.some.inj ((find?_withDefinitions s).symm.trans hv)
    exact ⟨_, Array.getElem?_push_size, rfl, _, rfl⟩
  · rw [hb]
    rw [withDefinitions, Array.getElem?_push] at hx
    split at hx
    · rw [← Option.some.inj hx] at hl
      cases hl
    · exact hr.listeners v x hx l hl

/-- The variable of the definitions is found or made. -/
theorem ready_obtain (hr : s.Ready m) :
    ∃ t, s.obtain definitionsName .definitions (.definitions .empty) "logger definitions"
        = (t, .ok s.nextBinding.subject) ∧
      t.Ready m ∧ t.find? definitionsName = some s.nextBinding.subject ∧
      t.nextListener = s.nextListener ∧ t.calls = s.calls ∧
      Logging.State.Course m s.logging [] t.logging := by
  cases hf : s.find? definitionsName with
  | some v =>
      -- the name is registered, and the variable is used as it is
      obtain ⟨x, hx, hkind, hvalue⟩ := hr.subject v hf
      have hb := nextBinding_of_find? hf
      have hcourse : Logging.State.Course m s.logging []
          (s.emit (registeredRecord (normalName definitionsName))).logging := .emit (.start _) _
      have hsize : (s.emit (registeredRecord (normalName definitionsName))).logging.managers.size
          = s.logging.managers.size := hcourse.size_managers hr.intact
      refine ⟨s.emit (registeredRecord (normalName definitionsName)), ?_, ?_, ?_, rfl, rfl, hcourse⟩
      · have hlookup : s.names.lookup (normalName definitionsName) = some v := hf
        have hvar : (s.emit (registeredRecord (normalName definitionsName))).vars[v]? = some x := hx
        simp only [State.obtain, hlookup, expectKind, hvar, hkind, hb, beq_self_eq_true, if_true]
      · exact ⟨hcourse.intact hr.intact, hr.subject, by rw [hsize]; exact hr.listeners, hr.calls⟩
      · rw [hb]
        exact hf
  | none =>
      have hlookup : s.names.lookup (normalName definitionsName) = none := hf
      have hvalid : isValidName (normalName definitionsName) = true := by decide
      have hb : s.nextBinding = { subject := s.vars.size, listener := s.nextListener } := by
        rw [nextBinding, hf]
        rfl
      have hobtain :
          s.obtain definitionsName .definitions (.definitions .empty) "logger definitions"
            = (s.withDefinitions, .ok s.nextBinding.subject) := by
        simp only [State.obtain, hlookup, hvalid, if_true, hb]
        rfl
      refine ⟨_, hobtain, ready_withDefinitions hr hf, ?_, rfl, rfl, .start _⟩
      rw [hb]
      exact find?_withDefinitions s

theorem eq_empty_of_isEmpty {ds : Definitions} (h : ds.toList.isEmpty = true) : ds = .empty := by
  obtain ⟨ds, hs⟩ := ds
  cases ds with
  | nil => rfl
  | cons d ds => cases h

/-- What the manager is led to when it is bound. -/
def firstPairs (ds : Definitions) : List (Value × Value) :=
  if ds.toList.isEmpty then [] else [(.definitions .empty, .definitions ds)]

/-- The first pass leads from no definitions to those of the variable, unless there are none. -/
theorem ready_reconcileAll (hr : s.Ready m) {v : VariableId}
    (hf : s.find? definitionsName = some v) :
    (s.reconcileAll v m).Ready m ∧ (s.reconcileAll v m).current v = s.current v ∧
      (s.reconcileAll v m).nextListener = s.nextListener ∧
      (s.reconcileAll v m).calls = s.calls ∧
      (s.reconcileAll v m).find? definitionsName = some v ∧
      ∃ ps, Logging.State.Course m s.logging ps (s.reconcileAll v m).logging ∧
        Chain .empty ps (s.current v) ∧ ps.map pair = firstPairs (s.current v) := by
  obtain ⟨x, hx, -, ds, hds⟩ := hr.subject v hf
  have hvalue : s.value? v = some (.definitions ds) := by
    rw [State.value?, hx, Option.map_some, hds]
  have hcurrent : s.current v = ds := current_of_value? hvalue
  rw [hcurrent]
  cases hempty : ds.toList.isEmpty with
  | true =>
      -- without definitions there is no pass
      have hkeep : s.reconcileAll v m = s := by
        simp only [reconcileAll, hvalue, hempty, if_true]
      rw [hkeep, hcurrent]
      exact ⟨hr, rfl, rfl, rfl, hf, [], .start _, eq_empty_of_isEmpty hempty,
        by simp [firstPairs, hempty]⟩
  | false =>
      have hpass : s.reconcileAll v m
          = { s with logging := (s.logging.reconcile m .empty ds).1 } := by
        simp [reconcileAll, hvalue, hempty]
      have hcourse : Logging.State.Course m s.logging
          [⟨.empty, ds, (s.logging.reconcile m .empty ds).2⟩] (s.logging.reconcile m .empty ds).1 :=
        .pass (.start _) .empty ds
      have hsize := hcourse.size_managers hr.intact
      rw [hpass]
      refine ⟨⟨hcourse.intact hr.intact, hr.subject, ?_, hr.calls⟩, hcurrent, rfl, rfl, hf, _,
        hcourse, ⟨rfl, ?_, rfl⟩, by simp [firstPairs, hempty, pair]⟩
      · show ∀ (v : Nat) (x : Variable), s.vars[v]? = some x → ∀ l ∈ x.listeners,
          l.1 < s.nextListener ∧
            l.2.Spares s.nextBinding m (s.logging.reconcile m .empty ds).1.managers.size
        rw [hsize]
        exact hr.listeners
      · obtain ⟨ds, hs⟩ := ds
        cases ds with
        | nil => cases hempty
        | cons d ds => rfl

/-- A variable of definitions that gets the listener of a binding is bound. -/
theorem bound_listen (hr : s.Ready m) {v : VariableId} (hf : s.find? definitionsName = some v) :
    (s.listen v (follower m)).1.Bound s.nextBinding m s.logging.managers.size := by
  have hb := nextBinding_of_find? hf
  -- no listener that is there has the number of the new one
  have hne : ∀ (w : Nat) (x : Variable), s.vars[w]? = some x → ∀ l ∈ x.listeners,
      l.1 ≠ s.nextBinding.listener := by
    intro w x hx l hl
    exact Nat.ne_of_lt (hr.listeners w x hx l hl).1
  refine ⟨hr.intact, Nat.le_refl _, Nat.lt_succ_self _, ?_, fun w y hy l hl => ?_⟩
  · obtain ⟨x, hx, hkind, hvalue⟩ := hr.subject v hf
    refine ⟨{ x with
      listeners := x.listeners ++ [(s.nextListener, follower m)] },
      ?_, hkind, hvalue, ?_⟩
    · have hm := getElem?_modify s v v
        fun x => { x with
          listeners := x.listeners ++ [(s.nextListener, follower m)] }
      rw [if_pos rfl, hx] at hm
      rw [hb]
      exact hm
    · have hnone : x.listeners.filter (·.1 == s.nextBinding.listener) = [] := by
        refine List.filter_eq_nil_iff.2 fun l hl => ?_
        simpa using hne v x hx l hl
      rw [List.filter_append, hnone]
      simp [hb]
  · have hget := getElem?_modify s v w
      fun x => { x with
        listeners := x.listeners ++ [(s.nextListener, follower m)] }
    obtain hy' := hget.symm.trans hy
    split at hy'
    · rename_i hvw
      subst hvw
      obtain ⟨x, hx, rfl⟩ := Option.map_eq_some_iff.1 hy'
      rcases List.mem_append.1 hl with hl | hl
      · exact .inr ⟨hne v x hx l hl, (hr.listeners v x hx l hl).2⟩
      · refine .inl ?_
        rw [List.mem_singleton.1 hl, hb]
        exact ⟨rfl, rfl⟩
    · exact .inr ⟨hne w y hy' l hl, (hr.listeners w y hy' l hl).2⟩

/-! ## Histories -/

/-- All passes over a manager from before it is bound on: `start` is the state before, `bound` the
one right after, and `s` the one at the end. The first pass leads to what the variable held, and the
others are what the listener of the binding was told of. -/
structure History (m : Nat) (b : Binding) (start bound s : State) (ps : List Pass) : Prop where
  course : Logging.State.Course m start.logging ps s.logging
  chain : Chain .empty ps (s.current b.subject)
  pairs : ps.map pair = firstPairs (bound.current b.subject) ++ s.told b.listener

theorem current_listen (s : State) (v w : VariableId) (l : Listener) :
    (s.listen v l).1.current w = s.current w := by
  have hvalue : (s.listen v l).1.value? w = s.value? w := by
    have hm := getElem?_modify s v w
      fun x => { x with listeners := x.listeners ++ [(s.nextListener, l)] }
    show ((s.modify v _).vars[w]?).map (·.value) = (s.vars[w]?).map (·.value)
    rw [hm]
    split
    · rw [Option.map_map]
      rfl
    · rfl
  rw [current, current, hvalue]

/-- Binding a manager succeeds. -/
theorem history_bind (hr : s.Ready m) :
    ∃ t ps, s.bind m = (t, .ok s.nextBinding) ∧
      t.Bound s.nextBinding m s.logging.managers.size ∧ History m s.nextBinding s t t ps := by
  obtain ⟨u, hobtain, hru, hfu, hnextu, hcallsu, hcu⟩ := ready_obtain hr
  obtain ⟨hrv, hcurrent, hnext, hcalls, hf, ps, hc, hchain, hpairs⟩ := ready_reconcileAll hru hfu
  generalize hv : u.reconcileAll s.nextBinding.subject m = v at *
  have hb : v.nextBinding = s.nextBinding := by
    rw [nextBinding_of_find? hf, hnext, hnextu]
    rfl
  have hbound := bound_listen hrv hf
  have hsize : v.logging.managers.size = s.logging.managers.size := by
    rw [hc.size_managers hru.intact, hcu.size_managers hr.intact]
  rw [hb, hsize] at hbound
  -- the new listener has not been told of anything yet
  have hheard : (v.listen s.nextBinding.subject (follower m)).1.told
      s.nextBinding.listener = [] := by
    have hnone : s.calls.filter (·.listener == s.nextBinding.listener) = [] := by
      refine List.filter_eq_nil_iff.2 fun c hcall => ?_
      simpa [nextBinding] using Nat.ne_of_lt (hr.calls c hcall)
    show (v.calls.filter _).map _ = []
    rw [hcalls, hcallsu, hnone]
    rfl
  refine ⟨_, ps, ?_, hbound, ?_⟩
  · have hbinding : s.nextBinding
        = { subject := s.nextBinding.subject, listener := v.nextListener } := by
      rw [hnext, hnextu]
      rfl
    simp only [bind, hobtain, hv]
    rw [hbinding]
    rfl
  · constructor
    case course => exact hcu.trans hc
    case chain =>
      rw [current_listen, hcurrent]
      exact hchain
    case pairs => rw [hpairs, current_listen, hcurrent, hheard, List.append_nil]

/-- The history goes on as long as the manager stays bound. -/
theorem History.moves {start bound : State} {qs : List Pass}
    (h : History m b start bound s ps) (hm : Moves b m n s qs t) :
    History m b start bound t (ps ++ qs) where
  course := h.course.trans hm.course
  chain := h.chain.append hm.chain
  pairs := by rw [List.map_append, h.pairs, hm.told, List.append_assoc]

/-- Binding a manager and running on makes a history. -/
theorem history_run (hr : s.Ready m) (steps : List Step) :
    ∃ t ps, s.bind m = (t, .ok s.nextBinding) ∧
      History m s.nextBinding s t (t.run s.nextBinding steps) ps := by
  obtain ⟨t, ps, hbind, hbound, hh⟩ := history_bind hr
  obtain ⟨qs, hm⟩ := moves_run hbound steps
  exact ⟨t, ps ++ qs, hbind, hh.moves hm⟩

end State

end ConfigLog.Config
