import ConfigLog.Proofs.Config.Depth
import ConfigLog.Proofs.Config.Session

set_option autoImplicit false

/-! # The law of changes

Setting a variable to the value that it has does nothing. Setting it to another one calls the
listeners that it has at that moment, each once and in the order of their numbers, whatever they do
to the listeners of the variable or to other variables, and the variable keeps its old value until
all of them have been called (`dispatched_assign`). A number that a listener got is never given
again, and removing by it succeeds until that very listener has been taken away (`keeps_session`).
-/

namespace ConfigLog.Config.State

variable {s t u : State} {v : VariableId} {n : ListenerId}

/-! ## While a variable is being changed -/

/-- The calls of listeners of a variable. -/
def callsOf (s : State) (v : VariableId) : List Call := s.calls.filter (·.subject == v)

/-- The record of a call during a change. -/
def record (v : VariableId) (old new : Value) (l : ListenerId × Listener) : Call :=
  { subject := v, listener := l.1, tag := l.2.tag, old, new, seen := old }

/-- Nothing but the listeners of a variable that may not be set has become different. -/
structure Steady (v : VariableId) (n : ListenerId) (s u : State) : Prop where
  fit : u.Fit (· ≠ v) n
  value : u.value? v = s.value? v
  changing : u.isChanging v = s.isChanging v
  calls : u.callsOf v = s.callsOf v

theorem callsOf_note_of_ne (s : State) {c : Call} (h : c.subject ≠ v) :
    (s.note c).callsOf v = s.callsOf v := by
  simp [callsOf, note, List.filter_append, h]

theorem callsOf_note_self (s : State) {c : Call} (h : c.subject = v) :
    (s.note c).callsOf v = s.callsOf v ++ [c] := by
  simp [callsOf, note, List.filter_append, h]

theorem Move.callsOf {P : VariableId → Prop} (h : Move P s t) (hv : ¬ P v) :
    t.callsOf v = s.callsOf v := by
  cases h with
  | logging | add | register | clear | remember | stuck | listen | unlisten | unlistenAll | modify =>
      rfl
  | note hc =>
      refine callsOf_note_of_ne s ?_
      rintro rfl
      exact hv hc

/-- What is done while the variable may not be set. -/
theorem Path.steady {σ : List State} (h : Path (· ≠ v) s σ t) (hs : s.Fit (· ≠ v) n) :
    ∀ u ∈ s :: σ, Steady v n s u := by
  intro u hu
  obtain ⟨hvalue, hchanging, -⟩ := of_frozen (h.frozen (v := v) (by simp) u hu)
  refine ⟨h.fit hs u hu, hvalue, hchanging, ?_⟩
  exact h.forall_mem (Q := fun u => u.callsOf v = s.callsOf v)
    (fun hm hu => (hm.callsOf (by simp)).trans hu) rfl u hu

/-! ## Telling the listeners -/

variable {old new : Value} {depth : Nat}

/-- Some listeners of a variable have been called in a row, and the variable is as before. -/
structure Told (v : VariableId) (n : ListenerId) (old new : Value)
    (ls : List (ListenerId × Listener)) (s u : State) : Prop where
  fit : u.Fit (· ≠ v) n
  value : u.value? v = some old
  changing : u.isChanging v = s.isChanging v
  calls : u.callsOf v = s.callsOf v ++ ls.map (record v old new)

theorem Told.trans {ls ms : List (ListenerId × Listener)} (h : Told v n old new ls s t)
    (h' : Told v n old new ms t u) : Told v n old new (ls ++ ms) s u :=
  ⟨h'.fit, h'.value, h'.changing.trans h.changing,
    by rw [h'.calls, h.calls, List.map_append, List.append_assoc]⟩

theorem fit_note (hs : s.Fit (· ≠ v) n) {c : Call} (hc : c.listener < n) :
    (s.note c).Fit (· ≠ v) n where
  locked := hs.locked
  numbered := (Move.note (P := fun _ => True) s trivial
    (Nat.lt_of_lt_of_le hc hs.next)).numbered hs.numbered
  next := hs.next

/-- One listener: its call is recorded, and nothing that it does makes a difference. -/
theorem told_call (depth : Nat) (new : Value) (hs : s.Fit (· ≠ v) n)
    (hvalue : s.value? v = some old) {l : ListenerId × Listener} (hl : l.1 < n) :
    (∀ u ∈ callMoments (assignWithin depth) (momentsWithin depth) v old new s l,
      Told v n old new [l] s u) ∧
    Told v n old new [l] s (call (assignWithin depth) v old new s l) := by
  have hnoted : Told v n old new [l] s (s.note (record v old new l)) :=
    ⟨fit_note hs hl, hvalue, rfl, callsOf_note_self s rfl⟩
  have hpath := Account.run closed_paths looks_paths (paths_assignWithin depth n)
    (l.2.told old new) (s.note (record v old new l)) hnoted.fit
  have htold : ∀ u ∈ s.note (record v old new l) :: (l.2.told old new).moments
      (assignWithin depth) (momentsWithin depth) (s.note (record v old new l)),
      Told v n old new [l] s u := by
    intro u hu
    have hsteady := hpath.steady hnoted.fit u hu
    exact ⟨hsteady.fit, hsteady.value.trans hnoted.value, hsteady.changing,
      hsteady.calls.trans hnoted.calls⟩
  constructor
  · simp only [callMoments, hvalue]
    exact htold
  · simp only [call, hvalue]
    exact htold _ hpath.mem_or_eq

/-- All listeners of a table, one after the other: at every moment those of a first part of it have
been called. -/
theorem told_calls (depth : Nat) (new : Value) (hs : s.Fit (· ≠ v) n)
    (hvalue : s.value? v = some old) {ls : List (ListenerId × Listener)}
    (hls : ∀ l ∈ ls, l.1 < n) :
    (∀ u ∈ foldMoments (call (assignWithin depth) v old new)
        (callMoments (assignWithin depth) (momentsWithin depth) v old new) s ls,
      ∃ done rest, ls = done ++ rest ∧ Told v n old new done s u) ∧
    Told v n old new ls s (ls.foldl (call (assignWithin depth) v old new) s) := by
  induction ls generalizing s with
  | nil =>
      refine ⟨fun u hu => ?_, hs, hvalue, rfl, (List.append_nil _).symm⟩
      cases hu
  | cons l ls ih =>
      obtain ⟨hmoments, hcall⟩ := told_call depth new hs hvalue
        (hls l List.mem_cons_self)
      obtain ⟨hrest, hend⟩ := ih hcall.fit hcall.value
        fun l' hl' => hls l' (List.mem_cons_of_mem l hl')
      refine ⟨fun u hu => ?_, hcall.trans hend⟩
      rcases List.mem_append.1 hu with hu | hu
      · exact ⟨[l], ls, rfl, hmoments u hu⟩
      · obtain ⟨done, rest, rfl, htold⟩ := hrest u hu
        exact ⟨l :: done, rest, rfl, hcall.trans htold⟩

/-! ## The law -/

/-- What setting a variable to another value does. -/
structure Dispatched (s : State) (v : VariableId) (x : Variable) (new : Value) : Prop where
  changed : (s.assign v new).2 = true
  value : (s.assign v new).1.value? v = some new
  /-- The listeners that the variable has at the beginning are called, each once and in order. -/
  calls : (s.assign v new).1.callsOf v = s.callsOf v ++ x.listeners.map (record v x.value new)
  order : Ascending x.listeners
  /-- At all moments but the last one the variable has its old value, and that is what programs see;
  the calls so far are those of a first part of these listeners. -/
  during : ∃ τ, s.assignMoments v new = τ ++ [(s.assign v new).1] ∧
    ∀ u ∈ τ, u.value? v = some x.value ∧ (u.view.vars[v]?).map (·.value) = some x.value ∧
      ∃ done rest, x.listeners = done ++ rest ∧
        u.callsOf v = s.callsOf v ++ done.map (record v x.value new)

/-- A variable that has been locked is the only one that may not be set. -/
theorem fit_modify (hs : s.Numbered) (hv : v < s.vars.size) {f : Variable → Variable} (hf : Marks f)
    (hlocks : ∀ x, (f x).locked = true) : (s.modify v f).Fit (· ≠ v) s.nextListener where
  locked := by
    intro w hw
    obtain rfl : w = v := by simpa using hw
    rw [isLocked, getElem?_modify, if_pos rfl, Array.getElem?_eq_getElem hv]
    exact hlocks _
  numbered := (Move.modify (P := fun _ => True) s trivial hf).numbered hs
  next := Nat.le_refl _

theorem fit_mark {x : Variable} (hs : s.Numbered) (hx : s.vars[v]? = some x) :
    (s.mark v).Fit (· ≠ v) s.nextListener :=
  fit_modify hs (Array.getElem?_eq_some_iff.1 hx).1 ⟨fun _ => rfl, fun _ => rfl⟩
    fun _ => rfl

theorem value?_mark (s : State) (v w : VariableId) : (s.mark v).value? w = s.value? w := by
  refine map_getElem?_modify ?_ s
  exact fun _ _ => rfl

theorem value?_commit {c : Value} (h : s.value? v = some c) (new : Value) :
    (s.commit v new).value? v = some new := by
  obtain ⟨x, hx, -⟩ := Option.map_eq_some_iff.1 h
  rw [value?, commit, getElem?_modify, if_pos rfl, hx]
  rfl

/-- Setting a variable to another value while no change of it is on its way. -/
theorem dispatched_assign (hs : s.Numbered) {x : Variable} (hx : s.vars[v]? = some x)
    (hc : x.locked = false) (hne : x.value.same new = false) : Dispatched s v x new := by
  have hvalue : (s.mark v).value? v = some x.value := by
    rw [value?_mark, value?_of_getElem? hx]
  obtain ⟨hmoments, hend⟩ := told_calls s.vars.size new (fit_mark hs hx) hvalue
    (hs.listeners hx)
  have hassign : s.assign v new = ((x.listeners.foldl
      (call (assignWithin s.vars.size) v x.value new) (s.mark v)).commit v new, true) :=
    transition_of_ne hx hc hne
  constructor
  case changed =>
    rw [hassign]
  case value =>
    rw [hassign]
    exact value?_commit hend.value new
  case calls =>
    rw [hassign]
    exact hend.calls
  case order => exact hs.ascending hx
  case during =>
    refine ⟨s.mark v :: foldMoments (call (assignWithin s.vars.size) v x.value new)
      (callMoments (assignWithin s.vars.size) (momentsWithin s.vars.size) v x.value new)
      (s.mark v) x.listeners, ?_, fun u hu => ?_⟩
    · show transitionMoments _ _ s v new = _
      simp only [transitionMoments, hx, hc, hne, Bool.false_eq_true, if_false]
      rfl
    · rcases List.mem_cons.1 hu with rfl | hu
      · exact ⟨hvalue, (value_view _ v).trans hvalue, [], x.listeners, rfl,
          (List.append_nil _).symm⟩
      · obtain ⟨done, rest, hsplit, htold⟩ := hmoments u hu
        exact ⟨htold.value, (value_view u v).trans htold.value, done, rest, hsplit, htold.calls⟩

/-! ## Numbers of listeners in a session -/

/-- From each moment to the next one the listener with a number is not taken away. -/
def Untaken (v : VariableId) (i : ListenerId) (τ : List State) : Prop :=
  τ.IsChain fun p q => ¬ TakesAway v i p q

/-- From the moment on at which a listener got a number, that number stands for it and for nothing
else: all numbers given later are larger, and removing by it succeeds, from its own variable only,
just as long as nobody has taken the listener away, and so it has been there all the time. -/
structure Keeps (i : ListenerId) (v : VariableId) (l : Listener) (τ : List State) : Prop where
  larger : ∀ u ∈ τ, ∀ (w : VariableId) (l' : Listener), i < (u.listen w l').2
  removes : ∀ before u after, τ = before ++ u :: after → ∀ w,
    (u.unlisten w i).2 = true ↔ w = v ∧ Untaken v i (before ++ [u])
  there : ∀ before u after, τ = before ++ u :: after → Untaken v i (before ++ [u]) →
    u.listener? v i = some l

/-- What adding and removing listeners does, to the listener in question and to all others. -/
structure Tables (s : State) : Prop where
  listen : ∀ v x l, s.vars[v]? = some x → (s.listen v l).1.listener? v (s.listen v l).2 = some l
  unlisten : ∀ v i, (s.unlisten v i).1.listener? v i = none
  unlistenAll : ∀ v i, (s.unlistenAll v).listener? v i = none
  others : ∀ v w l i j, (j ≠ (s.listen v l).2 → (s.listen v l).1.listener? w j = s.listener? w j) ∧
    (¬ (w = v ∧ j = i) → (s.unlisten v i).1.listener? w j = s.listener? w j) ∧
    (w ≠ v → (s.unlistenAll v).listener? w j = s.listener? w j)

theorem tables (hs : s.Numbered) : Tables s where
  listen _ _ l hx := listener?_listen_self hs hx l
  unlisten v i := by rw [listener?_unlisten, if_pos ⟨rfl, rfl⟩]
  unlistenAll v i := by rw [listener?_unlistenAll, if_pos rfl]
  others v w l i j := by
    refine ⟨listener?_listen_of_ne s v w l, fun h => ?_, fun h => ?_⟩
    · rw [listener?_unlisten, if_neg h]
    · rw [listener?_unlistenAll, if_neg h]

/-- The number that a listener gets stands for that listener of that variable only. -/
theorem eq_of_listener?_listen (hs : s.Numbered) {v w : VariableId} {l l' : Listener}
    (h : (s.listen v l).1.listener? w s.nextListener = some l') : w = v ∧ l' = l := by
  by_cases hw : v = w
  · subst hw
    cases hx : s.vars[v]? with
    | none =>
        rw [listener?, getElem?_listen, if_pos rfl, hx] at h
        cases h
    | some x =>
        rw [listener?_listen_self hs hx l] at h
        exact ⟨rfl, (Option.some.inj h).symm⟩
  · rw [listener?, getElem?_listen, if_neg hw] at h
    have hnone : s.listener? w s.nextListener = none := listener?_eq_none hs w (Nat.le_refl _)
    rw [listener?] at hnone
    rw [hnone] at h
    cases h

/-- A listener stays as long as nobody takes it away. -/
theorem listener?_of_untaken {P : VariableId → Prop} {i : ListenerId} {τ : List State}
    (h : (s :: τ).IsChain (Move P)) (hi : i < s.nextListener) (huntaken : Untaken v i (s :: τ)) :
    ∀ u ∈ s :: τ, u.listener? v i = s.listener? v i := by
  induction τ generalizing s with
  | nil =>
      intro u hu
      rw [List.mem_singleton.1 hu]
  | cons t τ ih =>
      obtain ⟨hm, hrest⟩ := List.isChain_cons_cons.1 h
      obtain ⟨haway, hmore⟩ := List.isChain_cons_cons.1 huntaken
      have ht : t.listener? v i = s.listener? v i := (hm.listener? hi).resolve_left haway
      intro u hu
      rcases List.mem_cons.1 hu with rfl | hu
      · rfl
      · exact (ih hrest (Nat.lt_of_lt_of_le hi hm.next) hmore u hu).trans ht

/-- The moments up to one of them begin with the first one. -/
theorem exists_cons_of_split {σ before after : List State}
    (h : s :: σ = before ++ u :: after) : ∃ τ, before ++ [u] = s :: τ := by
  cases before with
  | nil => exact ⟨[], by simp [(List.cons.inj h).1]⟩
  | cons b before => exact ⟨before ++ [u], by simp [(List.cons.inj h).1]⟩

/-- Up to a moment the listener is the same as long as nobody takes it away. -/
theorem listener?_of_split {P : VariableId → Prop} {i : ListenerId} {σ before after : List State}
    (h : (s :: σ).IsChain (Move P)) (hi : i < s.nextListener)
    (hsplit : s :: σ = before ++ u :: after) (huntaken : Untaken v i (before ++ [u])) :
    ∀ m ∈ before ++ [u], m.listener? v i = s.listener? v i := by
  obtain ⟨τ, hτ⟩ := exists_cons_of_split hsplit
  have hmoves := h.prefix (show before ++ [u] <+: s :: σ from ⟨after, by simp [hsplit]⟩)
  rw [hτ] at hmoves huntaken ⊢
  exact listener?_of_untaken hmoves hi huntaken

/-- Nobody takes a listener away that is there all the time. -/
theorem untaken_of_forall {i : ListenerId} {τ : List State}
    (h : ∀ u ∈ τ, (u.listener? v i).isSome = true) : Untaken v i τ := by
  refine (List.pairwise_of_forall_mem_list fun p _ q hq haway => ?_).isChain
  have hsome := h q hq
  rw [haway.listener?] at hsome
  cases hsome

/-- Of the moments from one on, those up to another one are before it. -/
theorem later_of_split {σ before after : List State}
    (h : (s :: σ).Pairwise Later) (hsplit : s :: σ = before ++ u :: after) :
    (∀ m ∈ before ++ [u], m.Later u) ∧ s.Later u := by
  rw [hsplit] at h
  have hall : ∀ m ∈ before ++ [u], m.Later u := by
    intro m hm
    rcases List.mem_append.1 hm with hm | hm
    · exact (List.pairwise_append.1 h).2.2 m hm u List.mem_cons_self
    · exact (List.mem_singleton.1 hm) ▸ .refl u
  obtain ⟨τ, hτ⟩ := exists_cons_of_split hsplit
  exact ⟨hall, hall s (hτ ▸ List.mem_cons_self)⟩

/-- Whenever a listener gets a number in a session, the number keeps standing for it. -/
theorem keeps_session (hs : s.Numbered) (operations : List Operation) {before after : List State}
    {v : VariableId} {x : Variable} {l : Listener} (h : s :: s.sessionMoments operations
      = before ++ t :: (t.listen v l).1 :: after) (hx : t.vars[v]? = some x) :
    Keeps (t.listen v l).2 v l ((t.listen v l).1 :: after) := by
  have hpath := path_session hs operations
  have hmoments := hpath.numbered hs
  have hlater := hpath.later
  have hchain := hpath.chain
  rw [h] at hmoments hlater hchain
  have ht : t.Numbered := hmoments t (by simp)
  have hlater := (List.pairwise_cons.1 (List.pairwise_append.1 hlater).2.1).2
  have hchain := (List.isChain_cons_cons.1 hchain.right_of_append).2
  have hnext : t.nextListener < (t.listen v l).1.nextListener := Nat.lt_succ_self _
  have hgiven : (t.listen v l).1.listener? v t.nextListener = some l := listener?_listen_self ht hx l
  have hthere : ∀ mid u rest, (t.listen v l).1 :: after = mid ++ u :: rest →
      Untaken v t.nextListener (mid ++ [u]) → u.listener? v t.nextListener = some l :=
    fun mid u rest hsplit huntaken =>
      (listener?_of_split hchain hnext hsplit huntaken u (by simp)).trans hgiven
  constructor
  case larger =>
    intro u hu w l'
    obtain ⟨mid, rest, hsplit⟩ := List.append_of_mem hu
    exact Nat.lt_of_lt_of_le hnext (later_of_split hlater hsplit).2.next
  case removes =>
    intro mid u rest hsplit w
    obtain ⟨hbefore, hfirst⟩ := later_of_split hlater hsplit
    show (u.listener? w t.nextListener).isSome = true ↔ _
    constructor
    · intro hsome
      obtain ⟨l', hl'⟩ := Option.isSome_iff_exists.1 hsome
      -- the listener has been there from the beginning, where the number is that of `l`
      obtain ⟨rfl, rfl⟩ := eq_of_listener?_listen ht (hfirst.listener?_eq_some hnext hl')
      refine ⟨rfl, untaken_of_forall fun m hm => ?_⟩
      have hm' : m ∈ (t.listen w l').1 :: after := by
        rw [hsplit]
        exact List.mem_append.2 ((List.mem_append.1 hm).imp_right fun hm => by simp_all)
      obtain ⟨as, bs, hm'⟩ := List.append_of_mem hm'
      have hgone := Nat.lt_of_lt_of_le hnext (later_of_split hlater hm').2.next
      exact Option.isSome_of_eq_some ((hbefore m hm).listener?_eq_some hgone hl')
    · rintro ⟨rfl, huntaken⟩
      rw [hthere mid u rest hsplit huntaken]
      rfl
  case there => exact hthere

/-! ## The whole law -/

theorem numbered_session (l : Logging.State) (operations : List Operation) :
    ((fresh l).session operations).Numbered := by
  have hpath := path_session (numbered_fresh l) operations
  exact hpath.numbered (numbered_fresh l) _ hpath.mem_or_eq

theorem not_locked_of_not_stuck {x : Variable} (hx : s.vars[v]? = some x) {new : Value}
    (h : (s.assign v new).1.stuck = false) : x.locked = false := by
  cases hc : x.locked with
  | false => rfl
  | true =>
      have hstuck : s.assign v new = ({ s with stuck := true }, false) := by
        rw [assign_eq_transition]
        simp only [transition, hx, hc, if_true]
      rw [hstuck] at h
      cases h

/-- As long as nobody waits for a variable whose change is on its way, setting a variable to the
value that it has does nothing, and setting it to another one tells exactly its listeners, whatever
their programs are. The sets of other variables by listeners obey the same law. Adding and removing
listeners does to them what it says and nothing else, and the numbers that listeners get in a
session, from outside or by other listeners, keep standing for them. -/
theorem dispatch_law (hs : s.Numbered) :
    (∀ v x new, s.vars[v]? = some x → (s.assign v new).1.stuck = false →
      (x.value.same new = true → s.assign v new = (s, false)) ∧
      (x.value.same new = false → Dispatched s v x new)) ∧
    (∀ v new, s.assign v new = transition assign s v new) ∧
    Tables s ∧
    ∀ operations before t after v x l,
      s :: s.sessionMoments operations = before ++ t :: (t.listen v l).1 :: after →
      t.vars[v]? = some x → Keeps (t.listen v l).2 v l ((t.listen v l).1 :: after) := by
  refine ⟨fun v x new hx hstuck => ?_, assign_eq_transition s, tables hs, ?_⟩
  · have hc := not_locked_of_not_stuck hx hstuck
    exact ⟨fun hsame => transition_of_same hx hc hsame, fun hne => dispatched_assign hs hx hc hne⟩
  · intro operations before t after v x l h hx
    exact keeps_session hs operations h hx

/-- A listener that hands the new value on to a variable. -/
def handOn (w : VariableId) : Listener where
  tag := some "late"
  told _ new := .assign w new fun _ => .done

/-- Two variables. The first listener of the first one adds a listener to it, removes the second one
and sets the other variable. The listener of that one looks at the first variable and adds a
listener to it as well. -/
def scene : State := (fresh { files := .start [] }).session [
  .create "a" (.whole .i32) (.whole 1) "", .create "b" (.whole .i32) (.whole 1) "",
  .listen 0 {
    tag := some "first"
    told := fun _ new =>
      .listen 0 (some "late") (handOn 1).told fun _ =>
      .unlisten 0 2 fun found => .assign 1 (if found then new else .whole 0) fun _ => .done },
  .listen 0 { tag := some "second" },
  .listen 1 {
    tag := some "other"
    told := fun _ _ => .look fun view =>
      .listen 0 (view.vars[0]?.map (·.name)) (handOn 1).told fun _ => .done }]

theorem numbered_scene : scene.Numbered := numbered_session _ _

theorem dispatch_law_scene : (scene.assign 0 (.whole 7)).1.stuck = false ∧
    (∃ x, scene.vars[0]? = some x ∧ Dispatched scene 0 x (.whole 7)) ∧
    ((scene.assign 0 (.whole 7)).1.callsOf 0).map (·.tag) = [some "first", some "second"] ∧
    (scene.assign 0 (.whole 7)).1.value? 1 = some (.whole 7) ∧
    (scene.unlisten 0 2).1.listener? 0 2 = none ∧
    Keeps 4 1 {} [(scene.listen 1 {}).1, ((scene.listen 1 {}).1.unlisten 1 4).1] ∧
    (((scene.listen 1 {}).1.unlisten 1 4).1.unlisten 1 4).2 = false := by
  obtain ⟨hset, -, htables, hkeeps⟩ := dispatch_law numbered_scene
  have hstuck : (scene.assign 0 (.whole 7)).1.stuck = false := rfl
  have hdispatched := (hset 0 _ (.whole 7) rfl hstuck).2 rfl
  have hkept : Keeps 4 1 {} [(scene.listen 1 {}).1, ((scene.listen 1 {}).1.unlisten 1 4).1] :=
    hkeeps [.listen 1 {}, .unlisten 1 4] [] scene _ 1 _ {} rfl rfl
  refine ⟨hstuck, ⟨_, rfl, hdispatched⟩, ?_, rfl, htables.unlisten 0 2, hkept, ?_⟩
  · rw [hdispatched.calls]
    rfl
  · -- the listener has been taken away in between
    have haway : TakesAway 1 4 (scene.listen 1 {}).1 ((scene.listen 1 {}).1.unlisten 1 4).1 :=
      .inl rfl
    have hremoves := hkept.removes [(scene.listen 1 {}).1] _ [] rfl 1
    rw [← Bool.not_eq_true, hremoves]
    rintro ⟨-, huntaken⟩
    exact (List.isChain_cons_cons.1 huntaken).1 haway

end ConfigLog.Config.State
