import ConfigLog.Proofs.Config.Dispatch

set_option autoImplicit false

/-! # What listeners have been told

From the moment on at which a listener is added, the changes that it has been told of form a chain:
it starts with the value that the variable had then, each change starts where the one before it
ended, and the last one ended with the value of the variable. When the listener is taken away, the
chain ends with the value that the variable has after the changes that were on their way, and
nothing more is added to it (`Story.gapFree`).

All that happens is cut into stretches that lead from one moment at which a variable is not being
changed to the next one (`Stretch`).
-/

namespace ConfigLog.Config

/-- Changes that lead from one value to another, each from where the one before it ended, and none
to a value that is the same. -/
def Linked : Value → List (Value × Value) → Value → Prop
  | c, [], d => d = c
  | c, p :: ps, d => p.1 = c ∧ p.1.same p.2 = false ∧ Linked p.2 ps d

theorem Linked.snoc {c d e : Value} {ps : List (Value × Value)} (h : Linked c ps d)
    (hne : d.same e = false) : Linked c (ps ++ [(d, e)]) e := by
  induction ps generalizing c with
  | nil =>
      obtain rfl : d = c := h
      exact ⟨rfl, hne, rfl⟩
  | cons p ps ih => exact ⟨h.1, h.2.1, ih h.2.2⟩

namespace State

variable {s t u : State} {σ τ : List State} {v : VariableId} {i : ListenerId} {c : Value}

/-- The changes that a listener of a variable has been told of. -/
def received (s : State) (v : VariableId) (i : ListenerId) : List (Value × Value) :=
  ((s.callsOf v).filter (·.listener == i)).map fun c => (c.old, c.new)

/-- A listener is there. -/
def listens (s : State) (v : VariableId) (i : ListenerId) : Prop := (s.listener? v i).isSome = true

/-! ## Stretches -/

/-- From one moment at which a variable is not being changed to the next one: the variable has kept
its value and its listeners have been told nothing, or there has been one change, and those that
were there at the beginning have been told of it. -/
structure Stretch (v : VariableId) (s : State) (σ : List State) (t : State) : Prop where
  busy : ∀ u ∈ σ, u.isChanging v = true
  quiet : t.isChanging v = false
  next : s.nextListener ≤ t.nextListener
  hears : ∀ i < s.nextListener, ∀ u ∈ σ,
    u.received v i = s.received v i ∨ u.received v i = t.received v i
  stays : ∀ i < s.nextListener, t.listens v i → s.listens v i
  course : ((∀ c, s.value? v = some c → t.value? v = some c) ∧
      ∀ i < s.nextListener, t.received v i = s.received v i) ∨
    ∃ old new, s.value? v = some old ∧ t.value? v = some new ∧ old.same new = false ∧
      ∀ i < s.nextListener,
        (s.listens v i → t.received v i = s.received v i ++ [(old, new)]) ∧
        (¬ s.listens v i → t.received v i = s.received v i)

/-- One stretch after the other. -/
inductive Story (v : VariableId) : State → List State → State → Prop
  | start (s : State) : Story v s [] s
  | stretch {s t u : State} {σ τ : List State} (h : Stretch v s σ t) (rest : Story v t τ u) :
    Story v s (σ ++ t :: τ) u

/-- What a listener has been told is a chain, which ends with the value of the variable as long as
the listener is there. -/
def Kept (c : Value) (v : VariableId) (i : ListenerId) (s : State) : Prop :=
  ∃ d, Linked c (s.received v i) d ∧ (s.listens v i → s.value? v = some d)

/-- A listener that is there and has been told a chain has been told one after a stretch as well,
even if it is not there any more. -/
theorem Stretch.value (h : Stretch v s σ t) (hi : i < s.nextListener) (hs : s.listens v i)
    (hkept : Kept c v i s) : ∃ d, t.value? v = some d ∧ Linked c (t.received v i) d := by
  obtain ⟨d, hlinked, hvalue⟩ := hkept
  rcases h.course with ⟨hsame, hreceived⟩ | ⟨old, new, hold, hnew, hne, hreceived⟩
  · exact ⟨d, hsame d (hvalue hs), hreceived i hi ▸ hlinked⟩
  · obtain rfl : d = old := Option.some.inj ((hvalue hs).symm.trans hold)
    exact ⟨new, hnew, (hreceived i hi).1 hs ▸ hlinked.snoc hne⟩

/-- A listener that is not there is told nothing. -/
theorem Stretch.silent (h : Stretch v s σ t) (hi : i < s.nextListener) (hs : ¬ s.listens v i) :
    t.received v i = s.received v i := by
  rcases h.course with ⟨-, hreceived⟩ | ⟨old, new, -, -, -, hreceived⟩
  · exact hreceived i hi
  · exact (hreceived i hi).2 hs

theorem Stretch.kept (h : Stretch v s σ t) (hi : i < s.nextListener) (hkept : Kept c v i s) :
    Kept c v i t := by
  by_cases hs : s.listens v i
  · obtain ⟨d, hvalue, hlinked⟩ := h.value hi hs hkept
    exact ⟨d, hlinked, fun _ => hvalue⟩
  · obtain ⟨d, hlinked, -⟩ := hkept
    exact ⟨d, h.silent hi hs ▸ hlinked, fun ht => absurd (h.stays i hi ht) hs⟩

/-- A list that is split at an element behind its first part. -/
theorem split_behind {α : Type} {as bs before after : List α} {q : α}
    (h : as ++ bs = before ++ q :: after) (hq : q ∉ as) :
    ∃ mid, before = as ++ mid ∧ bs = mid ++ q :: after := by
  rcases List.append_eq_append_iff.1 h with ⟨mid, hbefore, hbs⟩ | ⟨mid, has, hrest⟩
  · exact ⟨mid, hbefore, hbs⟩
  · cases mid with
    | nil => exact ⟨[], by simpa using has.symm, by simpa using hrest.symm⟩
    | cons r mid =>
        obtain ⟨rfl, -⟩ := List.cons.inj hrest
        exact absurd (by simp [has]) hq

namespace Story

theorem append (h : Story v s σ t) (h' : Story v t τ u) : Story v s (σ ++ τ) u := by
  induction h with
  | start s => exact h'
  | stretch hfirst _ ih =>
      rw [List.append_assoc, List.cons_append]
      exact .stretch hfirst (ih h')

theorem one (h : Stretch v s σ t) : Story v s (σ ++ [t]) t := .stretch h (.start t)

/-- A story may be told from any moment on at which the variable is not being changed. -/
theorem from_quiet (h : Story v s τ t) {before after : List State} {q : State}
    (hsplit : s :: τ = before ++ q :: after) (hquiet : q.isChanging v = false) :
    Story v q after t := by
  induction h generalizing before with
  | start s =>
      cases before with
      | nil =>
          obtain ⟨rfl, rfl⟩ := List.cons.inj hsplit
          exact .start s
      | cons r before => simp at hsplit
  | @stretch s t r σ τ hfirst hrest ih =>
      cases before with
      | nil =>
          obtain ⟨rfl, rfl⟩ := List.cons.inj hsplit
          exact .stretch hfirst hrest
      | cons p before =>
          have hnot : q ∉ σ := by
            intro hq
            rw [hfirst.busy q hq] at hquiet
            cases hquiet
          obtain ⟨mid, -, hmid⟩ := split_behind (List.cons.inj hsplit).2 hnot
          exact ih hmid

/-- Whenever the variable is not being changed, the listener has been told a chain. -/
theorem kept (h : Story v s τ t) (hi : i < s.nextListener) (hkept : Kept c v i s) :
    ∀ u ∈ s :: τ, u.isChanging v = false → Kept c v i u := by
  induction h with
  | start s =>
      intro u hu _
      exact (List.mem_singleton.1 hu) ▸ hkept
  | @stretch s t r σ τ hfirst _ ih =>
      intro u hu hquiet
      rcases List.mem_append.1 (show u ∈ (s :: σ) ++ t :: τ from hu) with hu | hu
      · rcases List.mem_cons.1 hu with rfl | hu
        · exact hkept
        · rw [hfirst.busy u hu] at hquiet
          cases hquiet
      · exact ih (Nat.lt_of_lt_of_le hi hfirst.next) (hfirst.kept hi hkept) u hu hquiet

/-- Nothing more is told to a listener that is gone. -/
theorem silent (h : Story v s τ t) (hi : i < s.nextListener) (hs : ¬ s.listens v i) :
    ∀ u ∈ τ, u.received v i = s.received v i := by
  induction h with
  | start s =>
      intro u hu
      cases hu
  | @stretch s t r σ τ hfirst _ ih =>
      intro u hu
      have ht := hfirst.silent hi hs
      rcases List.mem_append.1 hu with hu | hu
      · rcases hfirst.hears i hi u hu with h | h
        · exact h
        · exact h.trans ht
      · rcases List.mem_cons.1 hu with rfl | hu
        · exact ht
        · have hrest := ih (Nat.lt_of_lt_of_le hi hfirst.next) (fun h => hs (hfirst.stays i hi h))
          exact (hrest u hu).trans ht

/-- At the first moment without the listener at which the variable is not being changed, what the
listener has been told ends with the value of the variable. -/
theorem left (h : Story v s τ t) (hi : i < s.nextListener) (hs : s.listens v i)
    (hkept : Kept c v i s) {before after : List State} {q : State}
    (hsplit : s :: τ = before ++ q :: after) (hquiet : q.isChanging v = false)
    (hgone : ¬ q.listens v i) (hfirst : ∀ u ∈ before, u.isChanging v = false → u.listens v i) :
    ∃ d, q.value? v = some d ∧ Linked c (q.received v i) d := by
  induction h generalizing before with
  | start s =>
      have hq : q ∈ [s] := by simp [hsplit]
      exact absurd hs ((List.mem_singleton.1 hq) ▸ hgone)
  | @stretch s t r σ τ hstretch hrest ih =>
      have hnot : q ∉ s :: σ := by
        intro hq
        rcases List.mem_cons.1 hq with rfl | hq
        · exact hgone hs
        · rw [hstretch.busy q hq] at hquiet
          cases hquiet
      obtain ⟨mid, rfl, hmid⟩ := split_behind
        (show (s :: σ) ++ t :: τ = before ++ q :: after from hsplit) hnot
      by_cases ht : t.listens v i
      · exact ih (Nat.lt_of_lt_of_le hi hstretch.next) ht (hstretch.kept hi hkept) hmid
          fun u hu => hfirst u (List.mem_append_right (s :: σ) hu)
      · -- the stretch ends without the listener, so its end is the moment in question
        cases mid with
        | nil =>
            obtain ⟨rfl, rfl⟩ := List.cons.inj hmid
            exact hstretch.value hi hs hkept
        | cons u mid =>
            obtain ⟨rfl, -⟩ := List.cons.inj hmid
            exact absurd (hfirst t (by simp) hstretch.quiet) ht

end Story

end State

end ConfigLog.Config
