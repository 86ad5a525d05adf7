import Mathlib.Data.List.Chain
import Mathlib.Tactic.ByContra
import ConfigLog.Proofs.Config.Account

set_option autoImplicit false

/-! # Changes step by step

All that setting a variable does is a path of small moves (`path_assign`): the logging state goes
on, something is noted, a listener comes or goes, or a variable gets another value or is marked.
Variables whose change is on its way already, or that somebody looks at, keep their values
(`Path.frozen`), numbers of listeners keep counting up, and a listener that is gone does not come
back (`Path.later`). What holds of a change whenever it holds of the listeners in between holds of
setting a variable (`Account.covers_assign`).
-/

namespace ConfigLog.Config

/-- What of a variable never changes. -/
def Variable.label (x : Variable) : String × Kind × String := (x.name, x.kind, x.description)

/-- What of a variable stays as it is while it may not be set. -/
def Variable.frozen (x : Variable) : Value × Bool × Bool := (x.value, x.changing, x.pinned)

namespace State

variable {P : VariableId → Prop} {s t u : State} {σ τ : List State}

/-! ## Moves -/

/-- A variable gets another value or is marked, and stays as it is otherwise. -/
structure Marks (f : Variable → Variable) : Prop where
  label : ∀ x, (f x).label = x.label
  listeners : ∀ x, (f x).listeners = x.listeners

/-- Adds a variable and registers it under its name. -/
def register (s : State) (x : Variable) : State :=
  { (s.add x).1 with names := Keyed.insert x.name s.vars.size s.names }

/-- One thing that happens to a state, in which only variables of `P` are set or marked, and only
their listeners are called. -/
inductive Move (P : VariableId → Prop) : State → State → Prop
  | logging (s : State) (l : Logging.State) : Move P s { s with logging := l }
  | add (s : State) {x : Variable} (hv : P s.vars.size) (hx : x.listeners = []) :
    Move P s (s.add x).1
  | register (s : State) {x : Variable} (hv : P s.vars.size) (hx : x.listeners = [])
    (hname : s.names.lookup x.name = none) : Move P s (s.register x)
  | clear (s : State) : Move P s s.clear
  | remember (s : State) (note : Value) : Move P s (s.remember note)
  | stuck (s : State) : Move P s { s with stuck := true }
  | note (s : State) {c : Call} (hv : P c.subject) (hc : c.listener < s.nextListener) :
    Move P s (s.note c)
  | listen (s : State) (v : VariableId) (l : Listener) : Move P s (s.listen v l).1
  | unlisten (s : State) (v : VariableId) (i : ListenerId) : Move P s (s.unlisten v i).1
  | unlistenAll (s : State) (v : VariableId) : Move P s (s.unlistenAll v)
  | modify (s : State) {v : VariableId} (hv : P v) {f : Variable → Variable} (hf : Marks f) :
    Move P s (s.modify v f)

theorem Move.mark (s : State) {v : VariableId} (hv : P v) : Move P s (s.mark v) :=
  .modify s hv ⟨fun _ => rfl, fun _ => rfl⟩

theorem Move.commit (s : State) {v : VariableId} (hv : P v) (new : Value) :
    Move P s (s.commit v new) :=
  .modify s hv ⟨fun _ => rfl, fun _ => rfl⟩

theorem Move.pin (s : State) {v : VariableId} (hv : P v) : Move P s (s.pin v) :=
  .modify s hv ⟨fun _ => rfl, fun _ => rfl⟩

theorem Move.unpin (s : State) {v : VariableId} (hv : P v) : Move P s (s.unpin v) :=
  .modify s hv ⟨fun _ => rfl, fun _ => rfl⟩

/-! ## Numbers of listeners -/

/-- The listeners of a variable stand in the order of their numbers. -/
def Ascending (ls : List (ListenerId × Listener)) : Prop := ls.Pairwise (·.1 < ·.1)

/-- The numbers that have been given to listeners, and only those, are in use. -/
structure Numbered (s : State) : Prop where
  ascending : ∀ {v : VariableId} {x : Variable}, s.vars[v]? = some x → Ascending x.listeners
  listeners : ∀ {v : VariableId} {x : Variable}, s.vars[v]? = some x →
    ∀ l ∈ x.listeners, l.1 < s.nextListener
  calls : ∀ c ∈ s.calls, c.listener < s.nextListener

/-- What becomes of listeners: numbers that have been given keep what they stand for, or stand for
nothing any more. -/
structure Later (s t : State) : Prop where
  next : s.nextListener ≤ t.nextListener
  listener? : ∀ v i, i < s.nextListener →
    t.listener? v i = none ∨ t.listener? v i = s.listener? v i

theorem lookup_eq_some_iff {ls : List (ListenerId × Listener)} (h : Ascending ls) {i : ListenerId}
    {l : Listener} : ls.lookup i = some l ↔ (i, l) ∈ ls := by
  induction ls with
  | nil => simp
  | cons a as ih =>
      obtain ⟨hfirst, hrest⟩ := List.pairwise_cons.1 h
      rw [List.lookup_cons, List.mem_cons]
      by_cases hi : i = a.1
      · -- behind the first listener all numbers are larger
        have hnot : (i, l) ∉ as := by
          intro hmem
          have hlt : a.1 < i := hfirst (i, l) hmem
          exact Nat.ne_of_lt hlt hi.symm
        simp only [beq_iff_eq.2 hi, Option.some.injEq, hnot, or_false]
        constructor
        · rintro rfl
          exact hi ▸ rfl
        · intro heq
          exact (congrArg Prod.snd heq).symm
      · have hne : (i, l) ≠ a := fun heq => hi (congrArg Prod.fst heq)
        simp only [beq_eq_false_iff_ne.2 hi, hne, false_or]
        exact ih hrest

theorem listener?_of_getElem? {v : VariableId} {x : Variable} (h : s.vars[v]? = some x)
    (i : ListenerId) : s.listener? v i = x.listeners.lookup i := by
  rw [listener?, h]
  rfl

theorem listener?_eq_none (h : s.Numbered) (v : VariableId) {i : ListenerId}
    (hi : s.nextListener ≤ i) : s.listener? v i = none := by
  cases hx : s.vars[v]? with
  | none =>
      rw [listener?, hx]
      rfl
  | some x =>
      rw [listener?_of_getElem? hx]
      by_contra hne
      obtain ⟨l, hl⟩ := Option.ne_none_iff_exists'.1 hne
      have hlt := h.listeners hx _ ((lookup_eq_some_iff (h.ascending hx)).1 hl)
      exact absurd hlt (by simpa using hi)

/-- A listener with a number that has been given before has been there before. -/
theorem Later.listener?_eq_some (h : s.Later t) {v : VariableId} {i : ListenerId} {l : Listener}
    (hi : i < s.nextListener) (ht : t.listener? v i = some l) : s.listener? v i = some l := by
  rcases h.listener? v i hi with hnone | heq
  · rw [hnone] at ht
    cases ht
  · rw [← heq, ht]

theorem Later.refl (s : State) : s.Later s := ⟨Nat.le_refl _, fun _ _ _ => .inr rfl⟩

theorem Later.trans (h : s.Later t) (h' : t.Later u) : s.Later u where
  next := Nat.le_trans h.next h'.next
  listener? v i hi := by
    rcases h'.listener? v i (Nat.lt_of_lt_of_le hi h.next) with hu | hu
    · exact .inl hu
    · rw [hu]
      exact h.listener? v i hi

/-! ## What a move keeps -/

theorem getElem?_listen (s : State) (v w : VariableId) (l : Listener) :
    (s.listen v l).1.vars[w]? = if v = w
      then (s.vars[w]?).map fun x => { x with listeners := x.listeners ++ [(s.nextListener, l)] }
      else s.vars[w]? := by
  rw [listen, getElem?_modify]

theorem getElem?_add (s : State) (v : VariableId) (x : Variable) :
    (s.add x).1.vars[v]? = if v = s.vars.size then some x else s.vars[v]? :=
  Array.getElem?_push

/-- A variable that may not be set stays as it is, all but its listeners. -/
theorem Move.frozen (h : Move P s t) {v : VariableId} (hv : ¬ P v) :
    (t.vars[v]?).map (·.frozen) = (s.vars[v]?).map (·.frozen) := by
  cases h with
  | logging | clear | remember | stuck | note => rfl
  | @add x hw hx | @register x hw hx hname =>
      have hne : v ≠ s.vars.size := by
        rintro rfl
        exact hv hw
      have hvar : (s.add x).1.vars[v]? = s.vars[v]? := (getElem?_add s v x).trans (if_neg hne)
      exact congrArg (Option.map _) hvar
  | listen w l =>
      rw [getElem?_listen]
      split
      · rw [Option.map_map]
        rfl
      · rfl
  | unlisten w i | unlistenAll w =>
      refine map_getElem?_modify ?_ s
      exact fun _ _ => rfl
  | modify hw hf =>
      rw [getElem?_modify, if_neg]
      rintro rfl
      exact hv hw

/-- What a change on its way leaves as it is. -/
theorem of_frozen {v : VariableId} (h : (t.vars[v]?).map (·.frozen) = (s.vars[v]?).map (·.frozen)) :
    t.value? v = s.value? v ∧ t.isChanging v = s.isChanging v ∧ t.isLocked v = s.isLocked v := by
  have hread : ∀ {α : Type} (g : Value × Bool × Bool → α),
      (t.vars[v]?).map (fun x => g x.frozen) = (s.vars[v]?).map fun x => g x.frozen := by
    intro α g
    have hg := congrArg (Option.map g) h
    rwa [Option.map_map, Option.map_map] at hg
  exact ⟨hread (·.1), congrArg (·.getD false) (hread (·.2.1)),
    congrArg (·.getD false) (hread fun p => p.2.1 || p.2.2)⟩

/-- A variable may change as long as its listeners are in order and have numbers that have been
given. -/
theorem Numbered.modify (hs : s.Numbered) {v : VariableId} {f : Variable → Variable}
    (hf : ∀ x, s.vars[v]? = some x →
      Ascending (f x).listeners ∧ ∀ l ∈ (f x).listeners, l.1 < s.nextListener) :
    (s.modify v f).Numbered := by
  have htables : ∀ (w : VariableId) (y : Variable), (s.modify v f).vars[w]? = some y →
      Ascending y.listeners ∧ ∀ l ∈ y.listeners, l.1 < s.nextListener := by
    intro w y hy
    rw [getElem?_modify] at hy
    split at hy
    · rename_i hw
      obtain ⟨x, hx, rfl⟩ := Option.map_eq_some_iff.1 hy
      exact hf x (hw ▸ hx)
    · exact ⟨hs.ascending hy, hs.listeners hy⟩
  exact ⟨fun hy => (htables _ _ hy).1, fun hy => (htables _ _ hy).2, hs.calls⟩

theorem Numbered.add (hs : s.Numbered) {x : Variable} (hx : x.listeners = []) :
    (s.add x).1.Numbered := by
  have htables : ∀ (w : VariableId) (y : Variable), (s.add x).1.vars[w]? = some y →
      Ascending y.listeners ∧ ∀ l ∈ y.listeners, l.1 < s.nextListener := by
    intro w y hy
    rw [getElem?_add] at hy
    split at hy
    · obtain rfl := Option.some.inj hy
      rw [hx]
      exact ⟨.nil, fun l hl => by cases hl⟩
    · exact ⟨hs.ascending hy, hs.listeners hy⟩
  exact ⟨fun hy => (htables _ _ hy).1, fun hy => (htables _ _ hy).2, hs.calls⟩

theorem Move.numbered (h : Move P s t) (hs : s.Numbered) : t.Numbered := by
  cases h with
  | logging | clear | remember | stuck => exact ⟨hs.ascending, hs.listeners, hs.calls⟩
  | add hv hx => exact hs.add hx
  | register hv hx hname =>
      have h := hs.add hx
      exact ⟨h.ascending, h.listeners, h.calls⟩
  | note hv hc =>
      refine ⟨hs.ascending, hs.listeners, fun c hmem => ?_⟩
      rcases List.mem_append.1 hmem with hmem | hmem
      · exact hs.calls c hmem
      · exact (List.mem_singleton.1 hmem) ▸ hc
  | listen v l =>
      -- the next number is larger than all that have been given
      have hnext : ({ s with nextListener := s.nextListener + 1 } : State).Numbered :=
        ⟨hs.ascending, fun hx l hl => Nat.lt_succ_of_lt (hs.listeners hx l hl),
          fun c hc => Nat.lt_succ_of_lt (hs.calls c hc)⟩
      refine hnext.modify fun x hx => ⟨?_, fun a ha => ?_⟩
      · refine List.pairwise_append.2 ⟨hs.ascending hx, List.pairwise_singleton _ _, ?_⟩
        intro a ha b hb
        rw [List.mem_singleton.1 hb]
        exact hs.listeners hx a ha
      · rcases List.mem_append.1 ha with ha | ha
        · exact hnext.listeners hx a ha
        · rw [List.mem_singleton.1 ha]
          exact Nat.lt_succ_self _
  | unlisten v i =>
      refine hs.modify fun x hx => ⟨(hs.ascending hx).sublist List.filter_sublist, fun l hl => ?_⟩
      exact hs.listeners hx l ((List.mem_filter.1 hl).1)
  | unlistenAll v => exact hs.modify fun _ _ => ⟨.nil, fun l hl => by cases hl⟩
  | modify hv hf =>
      refine hs.modify fun x hx => ?_
      rw [hf.listeners]
      exact ⟨hs.ascending hx, hs.listeners hx⟩

/-! ## The listeners of a variable -/

theorem lookup_filter_ne (ls : List (ListenerId × Listener)) (i j : ListenerId) :
    (ls.filter (·.1 != i)).lookup j = if j = i then none else ls.lookup j := by
  induction ls with
  | nil => simp
  | cons a as ih =>
      obtain ⟨k, l⟩ := a
      by_cases hk : k = i
      · subst hk
        rw [List.filter_cons_of_neg (by simp), ih, List.lookup_cons]
        by_cases hj : j = k
        · rw [if_pos hj, if_pos hj]
        · rw [beq_eq_false_iff_ne.2 hj]
      · rw [List.filter_cons_of_pos (by simpa using hk), List.lookup_cons, List.lookup_cons, ih]
        by_cases hj : j = k
        · have hi : j ≠ i := hj ▸ hk
          simp only [beq_iff_eq.2 hj, if_neg hi]
        · rw [beq_eq_false_iff_ne.2 hj]

/-- Removing a listener takes it away from its variable, and takes nothing else away. -/
theorem listener?_unlisten (s : State) (v w : VariableId) (i j : ListenerId) :
    (s.unlisten v i).1.listener? w j = if w = v ∧ j = i then none else s.listener? w j := by
  show ((s.modify v _).vars[w]?).bind _ = _
  rw [getElem?_modify]
  by_cases hw : v = w
  · subst hw
    cases hx : s.vars[v]? with
    | none => simp [listener?, hx]
    | some x =>
        simp only [if_true, Option.map_some, Option.bind_some, true_and, listener?, hx,
          Option.bind_eq_bind, lookup_filter_ne]
  · rw [if_neg hw, if_neg (fun h => hw h.1.symm)]
    rfl

/-- Removing all listeners of a variable takes them away, and takes no other ones away. -/
theorem listener?_unlistenAll (s : State) (v w : VariableId) (j : ListenerId) :
    (s.unlistenAll v).listener? w j = if w = v then none else s.listener? w j := by
  show ((s.modify v _).vars[w]?).bind _ = _
  rw [getElem?_modify]
  by_cases hw : v = w
  · subst hw
    cases hx : s.vars[v]? <;> simp
  · rw [if_neg hw, if_neg (Ne.symm hw)]
    rfl

/-- Adding a listener leaves all others as they are. -/
theorem listener?_listen_of_ne (s : State) (v w : VariableId) (l : Listener) {j : ListenerId}
    (hj : j ≠ s.nextListener) : (s.listen v l).1.listener? w j = s.listener? w j := by
  rw [listener?, listener?, getElem?_listen]
  split
  · cases s.vars[w]? with
    | none => rfl
    | some x =>
        have hne : (j == s.nextListener) = false := beq_eq_false_iff_ne.2 hj
        show (x.listeners ++ [(s.nextListener, l)]).lookup j = x.listeners.lookup j
        rw [List.lookup_append, List.lookup_cons, hne, List.lookup_nil, Option.or_none]
  · rfl

theorem listener?_listen_self (hs : s.Numbered) {v : VariableId} {x : Variable}
    (hx : s.vars[v]? = some x) (l : Listener) :
    (s.listen v l).1.listener? v s.nextListener = some l := by
  have hy := getElem?_listen s v v l
  rw [if_pos rfl, hx] at hy
  have hold : x.listeners.lookup s.nextListener = none := by
    rw [← listener?_of_getElem? hx]
    exact listener?_eq_none hs v (Nat.le_refl _)
  rw [listener?_of_getElem? hy]
  show (x.listeners ++ [(s.nextListener, l)]).lookup s.nextListener = some l
  simp [List.lookup_append, hold]

theorem listener?_modify_of_marks {f : Variable → Variable} (hf : Marks f) (s : State)
    (v w : VariableId) (i : ListenerId) : (s.modify v f).listener? w i = s.listener? w i := by
  rw [listener?, listener?, getElem?_modify]
  split
  · cases s.vars[w]? with
    | none => rfl
    | some x => exact congrArg (·.lookup i) (hf.listeners x)
  · rfl

theorem listener?_add (s : State) {x : Variable} (hx : x.listeners = []) (w : VariableId)
    (i : ListenerId) : (s.add x).1.listener? w i = s.listener? w i := by
  rw [listener?, listener?, getElem?_add]
  split
  · rename_i hw
    rw [hw, Array.getElem?_size]
    exact congrArg (·.lookup i) hx
  · rfl

/-- The listener with a number is taken away from a variable, by itself or with all others. -/
def TakesAway (v : VariableId) (i : ListenerId) (s t : State) : Prop :=
  t = (s.unlisten v i).1 ∨ t = s.unlistenAll v

theorem TakesAway.listener? {v : VariableId} {i : ListenerId} (h : TakesAway v i s t) :
    t.listener? v i = none := by
  rcases h with rfl | rfl
  · rw [listener?_unlisten, if_pos ⟨rfl, rfl⟩]
  · rw [listener?_unlistenAll, if_pos rfl]

/-- A listener whose number has been given stays where it is until it is taken away. -/
theorem Move.listener? (h : Move P s t) {v : VariableId} {i : ListenerId} (hi : i < s.nextListener) :
    TakesAway v i s t ∨ t.listener? v i = s.listener? v i := by
  cases h with
  | logging | clear | remember | stuck | note => exact .inr rfl
  | add hw hx => exact .inr (listener?_add s hx v i)
  | register hw hx hname => exact .inr (listener?_add s hx v i)
  | listen w l => exact .inr (listener?_listen_of_ne s w v l (Nat.ne_of_lt hi))
  | unlisten w j =>
      by_cases hvi : v = w ∧ i = j
      · obtain ⟨rfl, rfl⟩ := hvi
        exact .inl (.inl rfl)
      · rw [listener?_unlisten, if_neg hvi]
        exact .inr rfl
  | unlistenAll w =>
      by_cases hv : v = w
      · subst hv
        exact .inl (.inr rfl)
      · rw [listener?_unlistenAll, if_neg hv]
        exact .inr rfl
  | modify hw hf => exact .inr (listener?_modify_of_marks hf s _ v i)

theorem Move.next (h : Move P s t) : s.nextListener ≤ t.nextListener := by
  cases h with
  | listen v l => exact Nat.le_succ _
  | logging | add | register | clear | remember | stuck | note | unlisten | unlistenAll | modify =>
      exact Nat.le_refl _

theorem Move.later (h : Move P s t) : s.Later t := by
  refine ⟨h.next, fun v i hi => ?_⟩
  rcases h.listener? (v := v) hi with haway | hsame
  · exact .inl haway.listener?
  · exact .inr hsame

/-! ## Paths -/

/-- The moves that lead from one state to another, with the moments between them. -/
inductive Path (P : VariableId → Prop) : State → List State → State → Prop
  | start (s : State) : Path P s [] s
  | step {s t u : State} {τ : List State} (h : Move P s t) (rest : Path P t τ u) :
    Path P s (t :: τ) u

namespace Path

theorem one (h : Move P s t) : Path P s [t] t := .step h (.start t)

theorem append (h : Path P s σ t) (h' : Path P t τ u) : Path P s (σ ++ τ) u := by
  induction h with
  | start s => exact h'
  | step hm _ ih => exact .step hm (ih h')

/-- The last moment is the state that the path leads to. -/
theorem exists_eq_snoc (h : Path P s τ t) : ∃ σ, s :: τ = σ ++ [t] := by
  induction h with
  | start s => exact ⟨[], rfl⟩
  | @step s _ _ _ _ _ ih =>
      obtain ⟨σ, hσ⟩ := ih
      exact ⟨s :: σ, congrArg (s :: ·) hσ⟩

/-- From each moment to the next one there is one move. -/
theorem chain (h : Path P s τ t) : (s :: τ).IsChain (Move P) := by
  induction h with
  | start s => exact .singleton s
  | step hm _ ih => exact List.isChain_cons_cons.2 ⟨hm, ih⟩

theorem mem_or_eq (h : Path P s τ t) : t ∈ s :: τ := by
  obtain ⟨σ, hσ⟩ := h.exists_eq_snoc
  simp [hσ]

/-- What every move keeps, all moments keep. -/
theorem forall_mem {Q : State → Prop} (hQ : ∀ {s t}, Move P s t → Q s → Q t) (h : Path P s τ t)
    (hs : Q s) : ∀ u ∈ s :: τ, Q u := by
  induction h with
  | start s => exact fun u hu => (List.mem_singleton.1 hu) ▸ hs
  | step hm _ ih =>
      intro u hu
      rcases List.mem_cons.1 hu with rfl | hu
      · exact hs
      · exact ih (hQ hm hs) u hu

theorem end_of {Q : State → Prop} (hQ : ∀ {s t}, Move P s t → Q s → Q t) (h : Path P s τ t)
    (hs : Q s) : Q t :=
  h.forall_mem hQ hs t h.mem_or_eq

/-- A variable that may not be set stays as it is at all moments, all but its listeners. -/
theorem frozen (h : Path P s τ t) {v : VariableId} (hv : ¬ P v) :
    ∀ u ∈ s :: τ, (u.vars[v]?).map (·.frozen) = (s.vars[v]?).map (·.frozen) :=
  h.forall_mem (Q := fun u => (u.vars[v]?).map (·.frozen) = (s.vars[v]?).map (·.frozen))
    (fun hm hu => (hm.frozen hv).trans hu) rfl

theorem numbered (h : Path P s τ t) (hs : s.Numbered) : ∀ u ∈ s :: τ, u.Numbered :=
  h.forall_mem Move.numbered hs

/-- Of two moments the second one is later. -/
theorem later (h : Path P s τ t) : (s :: τ).Pairwise Later := by
  induction h with
  | start s => exact List.pairwise_singleton _ _
  | @step s t u τ hm hrest hpair =>
      refine List.pairwise_cons.2 ⟨fun u hu => ?_, hpair⟩
      rcases List.mem_cons.1 hu with rfl | hu
      · exact hm.later
      · exact hm.later.trans ((List.pairwise_cons.1 hpair).1 u hu)

theorem later_end (h : Path P s τ t) : s.Later t :=
  h.end_of (Q := s.Later) (fun hm hs => hs.trans hm.later) (.refl s)

end Path

/-! ## The path of a change -/

/-- Variables outside of `P` may not be set, and the numbers below `n` have been given. -/
structure Fit (P : VariableId → Prop) (n : ListenerId) (s : State) : Prop where
  locked : ∀ v, ¬ P v → s.isLocked v = true
  numbered : s.Numbered
  next : n ≤ s.nextListener

variable {n : ListenerId} {assign : Assign} {moments : Moments}

/-- A variable that may be set is one of `P`. -/
theorem Fit.of_not_locked (hs : s.Fit P n) {v : VariableId} {x : Variable} (hx : s.vars[v]? = some x)
    (hc : x.locked = false) : P v := by
  by_contra hv
  have h := hs.locked v hv
  rw [isLocked_of_getElem? hx, hc] at h
  cases h

theorem Path.fit (h : Path P s τ t) (hs : s.Fit P n) : ∀ u ∈ s :: τ, u.Fit P n := by
  refine h.forall_mem (fun hm hs => ⟨fun v hv => ?_, hm.numbered hs.numbered, ?_⟩) hs
  · rw [(of_frozen (hm.frozen hv)).2.2]
    exact hs.locked v hv
  · exact Nat.le_trans hs.next hm.next

theorem Path.fit_end (h : Path P s τ t) (hs : s.Fit P n) : t.Fit P n := h.fit hs t h.mem_or_eq

/-- The account that a path leads through the moments. -/
def paths (P : VariableId → Prop) (n : ListenerId) : Account :=
  fun s τ t => s.Fit P n → Path P s τ t

theorem closed_paths : Account.Closed (paths P n) where
  start s _ := .start s
  append h h' hs := (h hs).append (h' ((h hs).fit_end hs))
  turn s t _ := .one (.logging s (s.logging.turn t))
  remember s note _ := .one (.remember s note)
  listen s v l _ := .one (.listen s v l)
  unlisten s v i _ := .one (.unlisten s v i)
  unlistenAll s v _ := .one (.unlistenAll s v)

theorem looks_paths : Account.Looks (paths P n) where
  stuck s _ := .one (.stuck s)
  look {s t σ v x} l hx hc h hs := by
    have hv := hs.of_not_locked hx hc
    have hpin := Path.one (Move.pin s hv)
    have hlisten := Path.step (.listen t v l) (.one (Move.unpin _ hv))
    exact (hpin.append (h (hpin.fit_end hs))).append hlisten

/-- Telling the listeners of a variable is a path. -/
theorem path_calls (ha : ∀ n, (paths P n).Covers assign moments) {v : VariableId} (hv : P v)
    (old new : Value) {ls : List (ListenerId × Listener)} (hls : ∀ l ∈ ls, l.1 < n)
    (hs : s.Fit P n) :
    Path P s (foldMoments (call assign v old new) (callMoments assign moments v old new) s ls)
      (ls.foldl (call assign v old new) s) := by
  refine Account.calls closed_paths looks_paths (ha n) old new ls ?_ s hs
  rintro s c rfl ⟨l, hl, hc⟩ hs
  exact .one (.note s hv (hc ▸ Nat.lt_of_lt_of_le (hls l hl) hs.next))

/-- An account of whole changes: what is said of the listeners of a marked variable is said of the
change as well. -/
structure Account.Rounds (R : Account) : Prop extends Account.Looks R where
  note : ∀ (s : State) (c : Call), R s [s.note c] (s.note c)
  change : ∀ {s t : State} {σ : List State} {v : VariableId} {x : Variable} (new : Value),
    s.vars[v]? = some x → x.locked = false → R (s.mark v) σ t →
    R s (s.mark v :: σ ++ [t.commit v new]) (t.commit v new)

namespace Account

variable {R : Account} (hR : R.Closed) (hr : R.Rounds)

include hR hr

theorem covers_transition (ha : R.Covers assign moments) :
    R.Covers (State.transition assign) (transitionMoments assign moments) := by
  intro s v new
  cases hx : s.vars[v]? with
  | none =>
      simp only [State.transition, transitionMoments, hx]
      exact hR.start s
  | some x =>
      cases hc : x.locked with
      | true =>
          simp only [State.transition, transitionMoments, hx, hc, if_true]
          exact hr.stuck s
      | false =>
          cases hsame : x.value.same new with
          | true =>
              rw [transition_of_same hx hc hsame]
              simp only [transitionMoments, hx, hc, hsame, if_true, Bool.false_eq_true, if_false]
              exact hR.start s
          | false =>
              have hcalls := calls (v := v) hR hr.toLooks ha x.value new x.listeners
                (fun s c _ _ => hr.note s c) (s.mark v)
              simp only [transitionMoments, hx, hc, hsame, Bool.false_eq_true, if_false]
              rw [transition_of_ne hx hc hsame]
              exact hr.change new hx hc hcalls

theorem covers_assignWithin (depth : Nat) :
    R.Covers (State.assignWithin depth) (momentsWithin depth) := by
  induction depth with
  | zero => exact fun s _ _ => hr.stuck s
  | succ depth ih => exact covers_transition hR hr ih

/-- An account of whole changes covers setting a variable, whatever the listeners do. -/
theorem covers_assign : R.Covers State.assign assignMoments :=
  fun s v new => covers_assignWithin hR hr (s.vars.size + 1) s v new

end Account

theorem paths_transition (ha : ∀ n, (paths P n).Covers assign moments) :
    (paths P n).Covers (transition assign) (transitionMoments assign moments) := by
  intro s v new hs
  cases hx : s.vars[v]? with
  | none =>
      simp only [transition, transitionMoments, hx]
      exact .start s
  | some x =>
      cases hc : x.locked with
      | true =>
          simp only [transition, transitionMoments, hx, hc, if_true]
          exact .one (.stuck s)
      | false =>
          cases hsame : x.value.same new with
          | true =>
              rw [transition_of_same hx hc hsame]
              simp only [transitionMoments, hx, hc, hsame, if_true, Bool.false_eq_true, if_false]
              exact .start s
          | false =>
              have hv := hs.of_not_locked hx hc
              have hmark := Path.one (Move.mark s hv)
              have hfit : (s.mark v).Fit P s.nextListener :=
                hmark.fit_end ⟨hs.locked, hs.numbered, Nat.le_refl _⟩
              have hcalls := path_calls ha hv x.value new (hs.numbered.listeners hx) hfit
              simp only [transitionMoments, hx, hc, hsame, Bool.false_eq_true, if_false]
              rw [transition_of_ne hx hc hsame]
              exact (hmark.append hcalls).append (.one (.commit _ hv new))

theorem paths_assignWithin (depth : Nat) :
    ∀ n, (paths P n).Covers (assignWithin depth) (momentsWithin depth) := by
  induction depth with
  | zero => exact fun _ s _ _ _ => .one (.stuck s)
  | succ depth ih => exact fun _ => paths_transition ih

/-- Setting a variable is a path that sets no variable whose change is on its way. -/
theorem path_assign (hs : s.Fit P n) (v : VariableId) (new : Value) :
    Path P s (s.assignMoments v new) (s.assign v new).1 :=
  paths_assignWithin _ n s v new hs

theorem paths_assign : (paths P n).Covers State.assign assignMoments :=
  fun _ v new hs => path_assign hs v new

end State

end ConfigLog.Config
