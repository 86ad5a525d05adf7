import Mathlib.Data.Finset.Card
import Mathlib.Data.Finset.Range
import ConfigLog.Proofs.Config.Path

set_option autoImplicit false

/-! # How deep changes bring about others

Each change that brings about another one keeps its own variable on the way, so that at every depth
there are fewer variables that may still be set (`free_mark`). The bound on the depth is therefore
never reached: listeners set variables in the same way as everybody else (`assign_eq_transition`).
-/

namespace ConfigLog.Config.State

variable {s t u : State} {σ : List State} {a b : Assign} {ms : Moments} {k : Nat} {v w : VariableId}

/-! ## What is being changed -/

/-- The marks of a variable that may not be set. -/
def flags (x : Variable) : Bool × Bool := (x.changing, x.pinned)

/-- Two states have the same variables, and the same ones are being changed or looked at. -/
structure SameFlags (s t : State) : Prop where
  size : t.vars.size = s.vars.size
  flags : ∀ v : VariableId, (t.vars[v]?).map flags = (s.vars[v]?).map flags

namespace SameFlags

theorem trans (h : s.SameFlags t) (h' : t.SameFlags u) : s.SameFlags u :=
  ⟨h'.size.trans h.size, fun v => (h'.flags v).trans (h.flags v)⟩

theorem isLocked (h : s.SameFlags t) (v : VariableId) : t.isLocked v = s.isLocked v := by
  have hflags := congrArg (Option.map fun p => p.1 || p.2) (h.flags v)
  rw [Option.map_map, Option.map_map] at hflags
  exact congrArg (·.getD false) hflags

end SameFlags

theorem sameFlags_of_vars (h : t.vars = s.vars) : s.SameFlags t :=
  ⟨congrArg _ h, fun _ => by rw [h]⟩

theorem sameFlags_modify (s : State) (v : VariableId) {f : Variable → Variable}
    (hf : ∀ x, flags (f x) = flags x) : s.SameFlags (s.modify v f) :=
  ⟨Array.size_modify, fun _ => map_getElem?_modify (fun _ => hf) s⟩

/-- A variable that may be set is marked, and when all is done the mark is taken away. -/
theorem sameFlags_between {x : Variable} (hx : s.vars[v]? = some x) {f g : Variable → Variable}
    (hg : ∀ y, flags y = flags (f x) → flags (g y) = flags x) (h : (s.modify v f).SameFlags t) :
    s.SameFlags (t.modify v g) := by
  refine ⟨?_, fun w => ?_⟩
  · exact Array.size_modify.trans (h.size.trans Array.size_modify)
  · have hflags := h.flags w
    rw [getElem?_modify] at hflags ⊢
    split
    · rename_i hw
      subst hw
      rw [if_pos rfl, hx, Option.map_some, Option.map_some] at hflags
      obtain ⟨y, hy, hyflags⟩ := Option.map_eq_some_iff.1 hflags
      rw [hy, hx, Option.map_some, Option.map_some, Option.map_some, hg y hyflags]
    · rename_i hw
      rwa [if_neg hw] at hflags

theorem sameFlags_listen (s : State) (v : VariableId) (l : Listener) :
    s.SameFlags (s.listen v l).1 := by
  have hnext : s.SameFlags { s with nextListener := s.nextListener + 1 } := sameFlags_of_vars rfl
  exact hnext.trans (sameFlags_modify _ v fun _ => rfl)

theorem closed_sameFlags : Account.Closed fun s _ t => s.SameFlags t where
  start _ := sameFlags_of_vars rfl
  append h h' := h.trans h'
  turn _ _ := sameFlags_of_vars rfl
  remember _ _ := sameFlags_of_vars rfl
  listen := sameFlags_listen
  unlisten s v _ := sameFlags_modify s v fun _ => rfl
  unlistenAll s v := sameFlags_modify s v fun _ => rfl

theorem rounds_sameFlags : Account.Rounds fun s _ t => s.SameFlags t where
  stuck _ := sameFlags_of_vars rfl
  look {s t σ v x} l hx hc h := by
    refine sameFlags_between hx (fun y hy => ?_) (h.trans (sameFlags_listen t v l))
    -- nobody has looked before, and nobody looks any more
    have hchanging : y.changing = x.changing := congrArg Prod.fst hy
    exact Prod.ext hchanging (changing_of_not_locked hc).2.symm
  note _ _ := sameFlags_of_vars rfl
  change {s t σ v x} new hx hc h := by
    refine sameFlags_between hx (fun y hy => ?_) h
    have hpinned : y.pinned = x.pinned := congrArg Prod.snd hy
    exact Prod.ext (changing_of_not_locked hc).1.symm hpinned

theorem sameFlags_assignWithin (depth : Nat) :
    Account.Covers (fun s _ t => s.SameFlags t) (assignWithin depth) (momentsWithin depth) :=
  Account.covers_assignWithin closed_sameFlags rounds_sameFlags depth

/-- When a variable has been set, the same variables are being changed as before. -/
theorem sameFlags_covers : Account.Covers (fun s _ t => s.SameFlags t) assign assignMoments :=
  fun s v new => sameFlags_assignWithin (s.vars.size + 1) s v new

/-! ## Variables that may be set -/

/-- The number of variables that may be set. -/
def free (s : State) : Nat := ((Finset.range s.vars.size).filter (s.isLocked · = false)).card

theorem free_le_size (s : State) : s.free ≤ s.vars.size := by
  have h := Finset.card_filter_le (Finset.range s.vars.size) (s.isLocked · = false)
  rwa [Finset.card_range] at h

theorem SameFlags.free (h : s.SameFlags t) : t.free = s.free := by
  simp only [State.free, h.size, h.isLocked]

theorem isLocked_modify_of_ne (h : v ≠ w) (s : State) (f : Variable → Variable) :
    (s.modify v f).isLocked w = s.isLocked w := by
  rw [isLocked, getElem?_modify, if_neg h, isLocked]

/-- When a variable is marked there is one less that may be set. -/
theorem free_modify {x : Variable} (hx : s.vars[v]? = some x) (hc : x.locked = false)
    {f : Variable → Variable} (hf : (f x).locked = true) : (s.modify v f).free + 1 = s.free := by
  have hsize : v < s.vars.size := (Array.getElem?_eq_some_iff.1 hx).1
  have hfree : s.isLocked v = false := (isLocked_of_getElem? hx).trans hc
  have hmarked : (s.modify v f).isLocked v = true := by
    rw [isLocked, getElem?_modify, if_pos rfl, hx]
    exact hf
  have herase : (Finset.range (s.modify v f).vars.size).filter ((s.modify v f).isLocked · = false)
      = ((Finset.range s.vars.size).filter (s.isLocked · = false)).erase v := by
    ext w
    rw [show (s.modify v f).vars.size = s.vars.size from Array.size_modify]
    simp only [Finset.mem_filter, Finset.mem_erase]
    by_cases hw : v = w
    · subst hw
      simp [hmarked]
    · rw [isLocked_modify_of_ne hw]
      simp [Ne.symm hw]
  rw [free, herase]
  exact Finset.card_erase_add_one (by simp [hsize, hfree])

theorem free_mark {x : Variable} (hx : s.vars[v]? = some x) (hc : x.locked = false) :
    (s.mark v).free + 1 = s.free := free_modify hx hc rfl

theorem free_pin {x : Variable} (hx : s.vars[v]? = some x) (hc : x.locked = false) :
    (s.pin v).free + 1 = s.free := free_modify hx hc (Bool.or_true _)

/-! ## Ways of setting variables that agree -/

/-- Two ways of setting variables do the same while at most a number of variables may be set. -/
def AgreeAt (k : Nat) (a b : Assign) : Prop :=
  ∀ (s : State) (v : VariableId) (new : Value), s.free ≤ k → a s v new = b s v new

/-- A way of setting variables ends with the same variables being changed. -/
abbrev Restores (a : Assign) (ms : Moments) : Prop :=
  Account.Covers (fun s _ t => s.SameFlags t) a ms

theorem foldl_eq_of {α β : Type} {f g : β → α → β} {Q : β → Prop}
    (heq : ∀ b a, Q b → f b a = g b a) (hQ : ∀ b a, Q b → Q (f b a)) (as : List α) {b : β}
    (hb : Q b) : as.foldl f b = as.foldl g b := by
  induction as generalizing b with
  | nil => rfl
  | cons a as ih =>
      rw [List.foldl_cons, List.foldl_cons, ← heq b a hb]
      exact ih (hQ b a hb)

theorem assignNode_congr (h : AgreeAt k a b) (hs : s.free ≤ k) (v : VariableId) (n : Node) :
    s.assignNode a v n = s.assignNode b v n := by
  unfold assignNode
  cases s.vars[v]? with
  | none => rfl
  | some x =>
      show s.assignRead a v x _ _ = s.assignRead b v x _ _
      cases x.kind.ofNode n with
      | error e => rfl
      | ok value =>
          simp only [assignRead]
          rw [h s v value hs]

theorem applySetting_congr (h : AgreeAt k a b) (hs : s.free ≤ k) (r : LoadReport)
    (setting : String × Node) : applySetting a (s, r) setting = applySetting b (s, r) setting := by
  unfold applySetting
  simp only [assignNode_congr h hs]

theorem loadWith_congr (h : AgreeAt k a b) (ha : Restores a ms) (hs : s.free ≤ k)
    (document : Node) : s.loadWith a document = s.loadWith b document := by
  have hannounced : (s.announced document).free ≤ k :=
    (Account.announced closed_sameFlags s document).free ▸ hs
  have hfold : (flatten document).foldl (applySetting a)
        (s.announced document, { invalid := invalidPaths document })
      = (flatten document).foldl (applySetting b)
        (s.announced document, { invalid := invalidPaths document }) := by
    refine foldl_eq_of (Q := fun done => done.1.free ≤ k) ?_ ?_ _ hannounced
    · exact fun done setting hdone => applySetting_congr h hdone done.2 setting
    · intro done setting hdone
      show (applySetting a (done.1, done.2) setting).1.free ≤ k
      rw [applySetting_fst]
      have hsetting := Account.setting closed_sameFlags ha done.1 setting
      exact hsetting.free ▸ hdone
  show (_, _) = (_, _)
  unfold announced at hfold
  rw [hfold]

/-- Looks agree when those who look do the same while the variable is being looked at. -/
theorem listenAfter_congr {f g : Value → State → State}
    (h : ∀ value t, t.free ≤ k → f value t = g value t) (hs : s.free ≤ k) (v : VariableId)
    (l : Listener) : s.listenAfter f v l = s.listenAfter g v l := by
  unfold listenAfter
  cases hx : s.vars[v]? with
  | none => rfl
  | some x =>
      cases hc : x.locked with
      | true => simp only [hc, if_true]
      | false =>
          have hfree := free_pin hx hc
          simp only [hc, Bool.false_eq_true, if_false]
          rw [h x.value (s.pin v) (by omega)]

theorem run_congr (h : AgreeAt k a b) (ha : Restores a ms) (p : Program) (hs : s.free ≤ k) :
    p.run a s = p.run b s := by
  -- the same number of variables may be set after each instruction
  have hkeep : ∀ {s t : State}, s.SameFlags t → s.free ≤ k → t.free ≤ k :=
    fun hst hs => hst.free ▸ hs
  induction p generalizing s with
  | done => rfl
  | look next ih => exact ih s.view hs
  | remember note next ih => exact ih (hkeep (closed_sameFlags.remember s note) hs)
  | listen v tag told next _ ih => exact ih _ (hkeep (closed_sameFlags.listen s v _) hs)
  | listenWith v init tag told next ihinit _ ih =>
      have hlook := listenAfter_congr (fun value t ht => ihinit value ht) hs v { tag, told }
      have hflags := @Account.listenAfter _ _ (fun value => (init value).moments a ms)
        closed_sameFlags rounds_sameFlags.toLooks
        (fun value => Account.run closed_sameFlags rounds_sameFlags.toLooks ha (init value)) s v
        { tag, told }
      have hrest := ih (s.listenAfter (fun value => (init value).run a) v { tag, told }).2
        (hkeep hflags hs)
      exact hrest.trans (by rw [hlook]; rfl)
  | unlisten v i next ih => exact ih _ (hkeep (closed_sameFlags.unlisten s v i) hs)
  | unlistenAll v next ih => exact ih (hkeep (closed_sameFlags.unlistenAll s v) hs)
  | assign v value next ih =>
      have hrest := ih (a s v value).2 (hkeep (ha s v value) hs)
      exact hrest.trans (by rw [h s v value hs]; rfl)
  | load document next ih =>
      have hload := Account.load closed_sameFlags ha s document
      have hrest := ih (s.loadWith a document).2 (hkeep hload hs)
      exact hrest.trans (by rw [loadWith_congr h ha hs]; rfl)
  | turn t next ih => exact ih (hkeep (closed_sameFlags.turn s t) hs)

theorem call_congr (h : AgreeAt k a b) (ha : Restores a ms) (hs : s.free ≤ k) (v : VariableId)
    (old new : Value) (l : ListenerId × Listener) :
    call a v old new s l = call b v old new s l := by
  unfold call
  cases s.value? v with
  | none => rfl
  | some seen => exact run_congr h ha _ hs

/-- What a change does is settled by how variables are set while it is on its way, when there is one
less that may be set. -/
theorem transition_congr (h : (s.mark v).free < s.free → AgreeAt (s.mark v).free a b)
    (ha : Restores a ms) (new : Value) : transition a s v new = transition b s v new := by
  unfold transition
  cases hx : s.vars[v]? with
  | none => rfl
  | some x =>
      cases hc : x.locked with
      | true => simp only [hc, if_true]
      | false =>
          have hfree := free_mark hx hc
          have hagree := h (by omega)
          have hcalls : x.listeners.foldl (call a v x.value new) (s.mark v)
              = x.listeners.foldl (call b v x.value new) (s.mark v) := by
            refine foldl_eq_of (Q := fun t => t.free ≤ (s.mark v).free) ?_ ?_ _ (Nat.le_refl _)
            · exact fun t l ht => call_congr hagree ha ht v x.value new l
            · intro t l ht
              have hcall := Account.call (v := v) closed_sameFlags rounds_sameFlags.toLooks ha
                x.value new l (fun _ _ _ _ => sameFlags_of_vars rfl) t
              exact hcall.free ▸ ht
          simp only [hcalls]

/-! ## The bound on the depth -/

/-- A bound on the depth above the number of variables that may be set makes no difference. -/
theorem assignWithin_eq (d e : Nat) (v : VariableId) (new : Value) (hd : s.free < d)
    (he : s.free < e) : assignWithin d s v new = assignWithin e s v new := by
  induction d generalizing e s v new with
  | zero => omega
  | succ d ih =>
      cases e with
      | zero => omega
      | succ e =>
          show transition (assignWithin d) s v new = transition (assignWithin e) s v new
          refine transition_congr (fun hless t w value ht => ?_) (sameFlags_assignWithin d) new
          exact ih e w value (by omega) (by omega)

/-- Listeners set variables in the same way as everybody else, at any depth. -/
theorem assign_eq_transition (s : State) (v : VariableId) (new : Value) :
    s.assign v new = transition assign s v new := by
  show transition (assignWithin s.vars.size) s v new = transition assign s v new
  refine transition_congr (fun hless t w value ht => ?_) (sameFlags_assignWithin _) new
  have hsize := free_le_size s
  have htsize := free_le_size t
  exact assignWithin_eq _ _ w value (by omega) (by omega)

end ConfigLog.Config.State
