import ConfigLog.Proofs.Config.Dispatch

set_option autoImplicit false

/-! # Listeners that change nothing

Listeners that neither set variables nor apply documents may still come and go, look at everything
and drive loggers. Setting a variable then does nothing but change it and tell its listeners
(`assign_passive`).
-/

namespace ConfigLog.Config

/-- The program sets no variable and applies no document, and nor does any listener that it adds. It
looks at no variable that may not be set while it runs. -/
def Program.Passive (locked : List VariableId) : Program → Prop
  | .done => True
  | .look next => ∀ view, (next view).Passive locked
  | .remember _ next => next.Passive locked
  | .listen v _ told next =>
    (∀ old new, (told old new).Passive [v]) ∧ ∀ i, (next i).Passive locked
  | .listenWith v init _ told next =>
    v ∉ locked ∧ (∀ value, (init value).Passive (v :: locked)) ∧
      (∀ old new, (told old new).Passive [v]) ∧ ∀ i, (next i).Passive locked
  | .unlisten _ _ next => ∀ found, (next found).Passive locked
  | .unlistenAll _ next => next.Passive locked
  | .turn _ next => next.Passive locked
  | .assign _ _ _ | .load _ _ => False

/-- What the listener of a variable does is passive. -/
def Listener.Passive (v : VariableId) (l : Listener) : Prop :=
  ∀ old new, (l.told old new).Passive [v]

namespace State

variable {s t u : State} {v w : VariableId} {x : Variable} {old new : Value}

/-- All listeners are passive. -/
def Passive (s : State) : Prop :=
  ∀ (v : VariableId) (x : Variable), s.vars[v]? = some x → ∀ l ∈ x.listeners, l.2.Passive v

/-! ## What stays -/

/-- The same variables are registered under the same names and have the same kinds, nobody has got
stuck, and passive listeners are joined by passive ones only. -/
structure Shaped (s t : State) : Prop where
  names : t.names = s.names
  stuck : t.stuck = s.stuck
  shape : ∀ v : VariableId,
    (t.vars[v]?).map (fun x => (x.name, x.kind)) = (s.vars[v]?).map fun x => (x.name, x.kind)
  passive : s.Passive → t.Passive

theorem Shaped.refl (s : State) : s.Shaped s := ⟨rfl, rfl, fun _ => rfl, id⟩

theorem Shaped.trans (h : s.Shaped t) (h' : t.Shaped u) : s.Shaped u where
  names := h'.names.trans h.names
  stuck := h'.stuck.trans h.stuck
  shape v := (h'.shape v).trans (h.shape v)
  passive hs := h'.passive (h.passive hs)

theorem Shaped.kind (h : s.Shaped t) (hx : s.vars[v]? = some x) :
    ∃ y, t.vars[v]? = some y ∧ y.name = x.name ∧ y.kind = x.kind := by
  have hshape := h.shape v
  rw [hx, Option.map_some] at hshape
  obtain ⟨y, hy, heq⟩ := Option.map_eq_some_iff.1 hshape
  exact ⟨y, hy, congrArg Prod.fst heq, congrArg Prod.snd heq⟩

theorem shaped_modify (s : State) (v : VariableId) {f : Variable → Variable}
    (hf : ∀ x, (f x).name = x.name ∧ (f x).kind = x.kind)
    (hl : ∀ x, ∀ l ∈ (f x).listeners, l ∈ x.listeners ∨ l.2.Passive v) :
    s.Shaped (s.modify v f) where
  names := rfl
  stuck := rfl
  shape w := by
    refine map_getElem?_modify ?_ s
    exact fun _ x => Prod.ext (hf x).1 (hf x).2
  passive hs := by
    intro w y hy l hmem
    rw [getElem?_modify] at hy
    split at hy
    · rename_i hw
      subst hw
      obtain ⟨x, hx, rfl⟩ := Option.map_eq_some_iff.1 hy
      exact (hl x l hmem).elim (hs v x hx l) id
    · exact hs w y hy l hmem

/-- Only the listeners of variables, what has been noted and the loggers have become different. -/
structure Calm (s t : State) : Prop extends Shaped s t where
  value? : ∀ v, t.value? v = s.value? v
  flags : s.SameFlags t

theorem Calm.trans (h : s.Calm t) (h' : t.Calm u) : s.Calm u :=
  ⟨h.toShaped.trans h'.toShaped, fun v => (h'.value? v).trans (h.value? v),
    h.flags.trans h'.flags⟩

/-- No listener has been called either. -/
structure Silent (s t : State) : Prop extends Calm s t where
  calls : t.calls = s.calls

theorem Silent.trans (h : s.Silent t) (h' : t.Silent u) : s.Silent u :=
  ⟨h.toCalm.trans h'.toCalm, h'.calls.trans h.calls⟩

/-- No more variables may not be set than before. -/
theorem Calm.locked (h : s.Calm t) {locked : List VariableId}
    (hs : ∀ w, s.isLocked w = true → w ∈ locked) : ∀ w, t.isLocked w = true → w ∈ locked :=
  fun w hw => hs w ((h.flags.isLocked w).symm.trans hw)

theorem calm_of_vars (hvars : t.vars = s.vars) (hnames : t.names = s.names)
    (hstuck : t.stuck = s.stuck) : s.Calm t where
  names := hnames
  stuck := hstuck
  shape _ := by rw [hvars]
  passive hs v x hx := hs v x (hvars ▸ hx)
  value? _ := by rw [State.value?, State.value?, hvars]
  flags := sameFlags_of_vars hvars

theorem Calm.refl (s : State) : s.Calm s := calm_of_vars rfl rfl rfl

theorem calm_logging (s : State) (l : Logging.State) : s.Calm { s with logging := l } :=
  calm_of_vars rfl rfl rfl

/-- The listeners of a variable become others, and the new ones are passive. -/
theorem calm_modify (s : State) (v : VariableId)
    {f : List (ListenerId × Listener) → List (ListenerId × Listener)}
    (hl : ∀ ls, ∀ l ∈ f ls, l ∈ ls ∨ l.2.Passive v) :
    s.Calm (s.modify v fun x => { x with listeners := f x.listeners }) where
  toShaped := shaped_modify s v (fun _ => ⟨rfl, rfl⟩) fun x => hl x.listeners
  value? w := by
    refine map_getElem?_modify ?_ s
    exact fun _ _ => rfl
  flags := sameFlags_modify s v fun _ => rfl

theorem calm_listen (s : State) (v : VariableId) {l : Listener} (hl : l.Passive v) :
    s.Calm (s.listen v l).1 := by
  have hnext : s.Calm { s with nextListener := s.nextListener + 1 } := calm_of_vars rfl rfl rfl
  refine hnext.trans (calm_modify (f := (· ++ [(s.nextListener, l)])) _ v fun ls a ha => ?_)
  rcases List.mem_append.1 ha with ha | ha
  · exact .inl ha
  · rw [List.mem_singleton.1 ha]
    exact .inr hl

theorem calm_unlisten (s : State) (v : VariableId) (i : ListenerId) :
    s.Calm (s.unlisten v i).1 :=
  calm_modify (f := (·.filter (·.1 != i))) s v fun _ _ hl => .inl (List.mem_of_mem_filter hl)

theorem calm_unlistenAll (s : State) (v : VariableId) : s.Calm (s.unlistenAll v) :=
  calm_modify (f := fun _ => []) s v fun _ _ hl => by cases hl

/-! ## Passive listeners -/

/-- Somebody who changes nothing looks at a variable and adds a passive listener to it. -/
theorem listenAfter_passive {init : Value → State → State} {l : Listener} (hl : l.Passive w)
    (hw : s.isLocked w = false) (hinit : ∀ value, (s.pin w).Silent (init value (s.pin w))) :
    s.Silent (s.listenAfter init w l).1 := by
  cases hx : s.vars[w]? with
  | none =>
      simp only [listenAfter, hx]
      exact ⟨calm_listen s w hl, rfl⟩
  | some x =>
      have hc : x.locked = false := (isLocked_of_getElem? hx).symm.trans hw
      have hlook := hinit x.value
      have hlisten := hlook.toCalm.trans (calm_listen (init x.value (s.pin w)) w hl)
      -- the marks that are made and taken away have nothing to do with names and values
      have hmark : ∀ (u : State) (b : Bool), u.Shaped (u.modify w ({ · with pinned := b })) :=
        fun u b => shaped_modify u w (fun _ => ⟨rfl, rfl⟩) fun _ _ => .inl
      have hvalue : ∀ (u : State) (b : Bool) (v : VariableId),
          (u.modify w ({ · with pinned := b })).value? v = u.value? v := by
        intro u b v
        refine map_getElem?_modify ?_ u
        exact fun _ _ => rfl
      have hflags : s.SameFlags (((init x.value (s.pin w)).listen w l).1.unpin w) :=
        rounds_sameFlags.look (σ := []) l hx hc hlook.flags
      rw [listenAfter_of_not_locked init hx hc]
      constructor
      case toCalm =>
        exact ⟨((hmark s true).trans hlisten.toShaped).trans (hmark _ false), fun v =>
          (hvalue _ false v).trans ((hlisten.value? v).trans (hvalue s true v)), hflags⟩
      case calls => exact hlook.calls

/-- A passive program changes nothing and calls nobody. -/
theorem run_passive (assign : Assign) {p : Program} {locked : List VariableId}
    (hp : p.Passive locked) (hs : ∀ w, s.isLocked w = true → w ∈ locked) :
    s.Silent (p.run assign s) := by
  -- on the program; the variables that may not be set stay the same from one instruction to the next
  induction p generalizing s locked with
  | done => exact ⟨.refl s, rfl⟩
  | look next ih => exact ih s.view (hp s.view) hs
  | remember note next ih =>
      have hstep : s.Silent (s.remember note) := ⟨calm_of_vars rfl rfl rfl, rfl⟩
      exact hstep.trans (ih hp (hstep.locked hs))
  | listen v tag told next _ ih =>
      have hstep : s.Silent (s.listen v { tag, told }).1 := ⟨calm_listen s v hp.1, rfl⟩
      exact hstep.trans (ih _ (hp.2 _) (hstep.locked hs))
  | listenWith v init tag told next ihinit _ ih =>
      obtain ⟨hv, hinit, htold, hnext⟩ := hp
      have hfree : s.isLocked v = false := Bool.eq_false_iff.2 fun hlocked => hv (hs v hlocked)
      have hpinned : ∀ w, (s.pin v).isLocked w = true → w ∈ v :: locked := by
        intro w hw
        by_cases hvw : v = w
        · exact hvw ▸ List.mem_cons_self
        · rw [pin, isLocked_modify_of_ne hvw] at hw
          exact List.mem_cons_of_mem v (hs w hw)
      have hstep : s.Silent (s.listenAfter (fun value => (init value).run assign) v
          { tag, told }).1 :=
        listenAfter_passive htold hfree fun value => ihinit value (hinit value) hpinned
      exact hstep.trans (ih _ (hnext _) (hstep.locked hs))
  | unlisten v i next ih =>
      have hstep : s.Silent (s.unlisten v i).1 := ⟨calm_unlisten s v i, rfl⟩
      exact hstep.trans (ih _ (hp _) (hstep.locked hs))
  | unlistenAll v next ih =>
      have hstep : s.Silent (s.unlistenAll v) := ⟨calm_unlistenAll s v, rfl⟩
      exact hstep.trans (ih hp (hstep.locked hs))
  | turn t next ih =>
      have hstep : s.Silent (s.turn t) := ⟨calm_logging s _, rfl⟩
      exact hstep.trans (ih hp (hstep.locked hs))
  | assign v value next => exact hp.elim
  | load document next => exact hp.elim

/-- Telling passive listeners records their calls, in order, and is calm otherwise. -/
theorem calls_passive {ls : List (ListenerId × Listener)} (hls : ∀ l ∈ ls, l.2.Passive v)
    (assign : Assign) (hs : ∀ w, s.isLocked w = true → w ∈ [v]) (hvalue : s.value? v = some old)
    (new : Value) :
    s.Calm (ls.foldl (call assign v old new) s) ∧
      (ls.foldl (call assign v old new) s).calls = s.calls ++ ls.map (record v old new) := by
  induction ls generalizing s with
  | nil => exact ⟨.refl s, (List.append_nil _).symm⟩
  | cons l ls ih =>
      have hnote : s.Calm (s.note (record v old new l)) := calm_of_vars rfl rfl rfl
      have hprogram := run_passive (s := s.note (record v old new l)) assign
        (hls l List.mem_cons_self old new) hs
      have hcall : call assign v old new s l
          = (l.2.told old new).run assign (s.note (record v old new l)) := by
        simp only [call, hvalue]
        rfl
      rw [← hcall] at hprogram
      have hcalm := hnote.trans hprogram.toCalm
      obtain ⟨hrest, hrestCalls⟩ := ih (fun l' hl' => hls l' (List.mem_cons_of_mem l hl'))
        (hcalm.locked hs) ((hcalm.value? v).trans hvalue)
      refine ⟨hcalm.trans hrest, ?_⟩
      rw [List.foldl_cons, hrestCalls, hprogram.calls]
      show (s.calls ++ [record v old new l]) ++ _ = _
      rw [List.append_assoc]
      rfl

/-! ## Setting a variable -/

/-- A variable has got a new value, and its listeners have been told. -/
structure Replaced (s : State) (v : VariableId) (x : Variable) (new : Value) (t : State) : Prop
    extends Shaped s t where
  value : t.value? v = some new
  others : ∀ w, w ≠ v → t.value? w = s.value? w
  calls : t.calls = s.calls ++ x.listeners.map (record v x.value new)

/-- Setting a variable to another value while all listeners are passive. -/
theorem assign_passive (hs : s.Passive) (hidle : s.Idle) (hx : s.vars[v]? = some x)
    (hne : x.value.same new = false) : Replaced s v x new (s.assign v new).1 := by
  have hassign : (s.assign v new).1 = (x.listeners.foldl
      (call (assignWithin s.vars.size) v x.value new) (s.mark v)).commit v new :=
    congrArg Prod.fst (transition_of_ne hx (hidle.not_locked hx) hne)
  have hmark : s.Shaped (s.mark v) := shaped_modify s v (fun _ => ⟨rfl, rfl⟩) fun _ _ => .inl
  -- nothing was being changed, so only this variable may not be set now
  have hmarked : ∀ w, (s.mark v).isLocked w = true → w ∈ [v] := by
    intro w hw
    by_cases hvw : v = w
    · exact List.mem_singleton.2 hvw.symm
    · rw [mark, isLocked_modify_of_ne hvw, hidle w] at hw
      cases hw
  obtain ⟨hcalm, hcalls⟩ := calls_passive (hs v x hx) (assignWithin s.vars.size) hmarked
    ((value?_mark s v v).trans (value?_of_getElem? hx)) new
  have hcommit : ∀ u : State, u.Shaped (u.commit v new) := fun u =>
    shaped_modify u v (fun _ => ⟨rfl, rfl⟩) fun _ _ => .inl
  rw [hassign]
  constructor
  case toShaped => exact (hmark.trans hcalm.toShaped).trans (hcommit _)
  case value =>
    refine value?_commit (c := x.value) ?_ new
    rw [hcalm.value?, value?_mark, value?_of_getElem? hx]
  case others =>
    intro w hw
    have hkeep : ∀ u : State, (u.commit v new).value? w = u.value? w := by
      intro u
      rw [value?, value?, commit, getElem?_modify, if_neg (Ne.symm hw)]
    rw [hkeep, hcalm.value?, value?_mark]
  case calls => exact hcalls

end State

end ConfigLog.Config
