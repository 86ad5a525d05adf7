import ConfigLog.Proofs.Config.Story

set_option autoImplicit false

/-! # Sessions without gaps

All that is done to variables, whether from outside or by listeners, is a story of stretches for
every variable (`story_session`). So what a listener has been told since it was added has no gaps
(`gap_free`).
-/

namespace ConfigLog.Config.State

variable {s t u : State} {σ τ : List State} {v w : VariableId} {i n : ListenerId}

/-! ## Stretches of one moment -/

/-- A variable is not being changed, and the numbers below `n` have been given. -/
structure Tracked (v : VariableId) (n : ListenerId) (s : State) : Prop where
  numbered : s.Numbered
  next : n ≤ s.nextListener
  quiet : s.isChanging v = false

theorem received_of_callsOf (h : t.callsOf v = s.callsOf v) (i : ListenerId) :
    t.received v i = s.received v i := by
  rw [received, received, h]

theorem Later.listens (h : s.Later t) (hi : i < s.nextListener) (ht : t.listens v i) :
    s.listens v i := by
  obtain ⟨l, hl⟩ := Option.isSome_iff_exists.1 ht
  exact Option.isSome_iff_exists.2 ⟨l, h.listener?_eq_some hi hl⟩

/-- The account that tells the story of a variable. -/
def tells (v : VariableId) (n : ListenerId) : Account :=
  fun s τ t => s.Tracked v n → Story v s τ t ∧ t.Tracked v n

/-- A move after which the variable has the value that it has had before and is not being changed,
and in which no listener of it is told anything. -/
theorem tells_move {P : VariableId → Prop} (h : Move P s t)
    (hvalue : ∀ c, s.value? v = some c → t.value? v = some c) (hcalls : t.callsOf v = s.callsOf v)
    (hquiet : s.isChanging v = false → t.isChanging v = false) : tells v n s [t] t := by
  intro hs
  have ht : t.Tracked v n :=
    ⟨h.numbered hs.numbered, Nat.le_trans hs.next h.next, hquiet hs.quiet⟩
  have hstretch : Stretch v s [] t :=
    ⟨fun u hu => (by cases hu), ht.quiet, h.next, fun i _ u hu => (by cases hu),
      fun i hi => h.later.listens hi, .inl ⟨hvalue, fun i _ => received_of_callsOf hcalls i⟩⟩
  exact ⟨.one hstretch, ht⟩

/-- A move that may touch all variables but one. -/
theorem tells_other (h : Move (· ≠ v) s t) : tells v n s [t] t := by
  obtain ⟨hvalue, hchanging, -⟩ := of_frozen (h.frozen (v := v) (by simp))
  exact tells_move h (fun c hc => hvalue.trans hc) (h.callsOf (by simp))
    fun hs => hchanging.trans hs

/-- Somebody begins to look at a variable, or does not look at it any more. -/
theorem tells_modify {f : Variable → Variable} (hf : Marks f)
    (hkeeps : ∀ x, (f x).value = x.value ∧ (f x).changing = x.changing) (s : State)
    (w : VariableId) : tells v n s [s.modify w f] (s.modify w f) := by
  have hvalue : (s.modify w f).value? v = s.value? v := by
    refine map_getElem?_modify ?_ s
    exact fun _ x => (hkeeps x).1
  have hchanging : (s.modify w f).isChanging v = s.isChanging v := by
    refine congrArg (·.getD false) (map_getElem?_modify ?_ s)
    exact fun _ x => (hkeeps x).2
  exact tells_move (Move.modify (P := fun _ => True) s trivial hf) (fun c hc => hvalue.trans hc)
    rfl fun hs => hchanging.trans hs

theorem closed_tells : Account.Closed (tells v n) where
  start s hs := ⟨.start s, hs⟩
  append h h' hs := by
    obtain ⟨hσ, ht⟩ := h hs
    obtain ⟨hτ, hu⟩ := h' ht
    exact ⟨hσ.append hτ, hu⟩
  turn s t := tells_other (.logging s (s.logging.turn t))
  remember s note := tells_other (.remember s note)
  listen s w l := tells_other (.listen s w l)
  unlisten s w j := tells_other (.unlisten s w j)
  unlistenAll s w := tells_other (.unlistenAll s w)

/-- While somebody looks at a variable it is not being changed, whichever variable it is. -/
theorem looks_tells : Account.Looks (tells v n) where
  stuck s := tells_other (.stuck s)
  look {s t σ w x} l hx hc h := by
    have hpin : tells v n s [s.pin w] (s.pin w) :=
      tells_modify (f := ({ · with pinned := true })) ⟨fun _ => rfl, fun _ => rfl⟩
        (fun _ => ⟨rfl, rfl⟩) s w
    have hunpin : tells v n (t.listen w l).1 [(t.listen w l).1.unpin w] ((t.listen w l).1.unpin w) :=
      tells_modify (f := ({ · with pinned := false })) ⟨fun _ => rfl, fun _ => rfl⟩
        (fun _ => ⟨rfl, rfl⟩) _ w
    exact closed_tells.append (closed_tells.append hpin h)
      (closed_tells.append (closed_tells.listen t w l) hunpin)

/-! ## A change of the variable -/

variable {old new : Value} {depth : Nat}

/-- What the calls of some listeners of a table mean for one of them. -/
theorem received_record {ls : List (ListenerId × Listener)}
    (h : u.callsOf v = s.callsOf v ++ ls.map (record v old new)) (i : ListenerId) :
    u.received v i = s.received v i ++ (ls.filter (·.1 == i)).map fun _ => (old, new) := by
  have hcalls : (ls.map (record v old new)).filter (·.listener == i)
      = (ls.filter (·.1 == i)).map (record v old new) := by
    rw [List.filter_map]
    rfl
  rw [received, received, h, List.filter_append, List.map_append, hcalls, List.map_map]
  rfl

/-- A number stands in a table once or not at all. -/
theorem filter_eq_of_ascending {ls : List (ListenerId × Listener)} (h : Ascending ls)
    (i : ListenerId) : ls.filter (·.1 == i) = (ls.lookup i).toList.map fun l => (i, l) := by
  induction ls with
  | nil => rfl
  | cons a as ih =>
      obtain ⟨hfirst, hrest⟩ := List.pairwise_cons.1 h
      by_cases hi : i = a.1
      · have hnone : as.filter (·.1 == i) = [] := by
          refine List.filter_eq_nil_iff.2 fun b hb => ?_
          have hlt : a.1 < b.1 := hfirst b hb
          simpa [hi] using Nat.ne_of_gt hlt
        rw [List.filter_cons_of_pos (by simp [hi]), List.lookup_cons, beq_iff_eq.2 hi, hnone, hi]
        rfl
      · rw [List.filter_cons_of_neg (by simpa using Ne.symm hi), List.lookup_cons,
          beq_eq_false_iff_ne.2 hi, ih hrest]

/-- Of the two parts of a table at most one has a number. -/
theorem filter_eq_nil_or {done rest : List (ListenerId × Listener)} (h : Ascending (done ++ rest))
    (i : ListenerId) : done.filter (·.1 == i) = [] ∨
      done.filter (·.1 == i) = (done ++ rest).filter (·.1 == i) := by
  have hall := filter_eq_of_ascending h i
  rw [List.filter_append] at hall ⊢
  cases hlookup : (done ++ rest).lookup i with
  | none =>
      rw [hlookup] at hall
      exact .inl (List.append_eq_nil_iff.1 hall).1
  | some l =>
      rw [hlookup] at hall
      rcases List.append_eq_singleton_iff.1 hall with ⟨hdone, -⟩ | ⟨-, hrest⟩
      · exact .inl hdone
      · exact .inr (by rw [hrest, List.append_nil])

/-- What a listener has been told when some of the listeners of a variable have been called. -/
theorem received_told {done : List (ListenerId × Listener)}
    (h : Told v n old new done (s.mark v) u) (i : ListenerId) :
    u.received v i = s.received v i ++ (done.filter (·.1 == i)).map fun _ => (old, new) :=
  received_record h.calls i

theorem isChanging_mark {x : Variable} (hx : s.vars[v]? = some x) :
    (s.mark v).isChanging v = true := by
  rw [mark, isChanging, getElem?_modify, if_pos rfl, hx]
  rfl

theorem isChanging_commit (s : State) (v : VariableId) (new : Value) :
    (s.commit v new).isChanging v = false := by
  rw [commit, isChanging, getElem?_modify, if_pos rfl]
  cases s.vars[v]? <;> rfl

/-- A change of the variable is one stretch. -/
theorem stretch_change {x : Variable} (hs : s.Numbered) (hx : s.vars[v]? = some x)
    (hc : x.locked = false) (hne : x.value.same new = false)
    (hlater : s.Later (transition (assignWithin depth) s v new).1) :
    Stretch v s (s.mark v :: foldMoments (call (assignWithin depth) v x.value new)
        (callMoments (assignWithin depth) (momentsWithin depth) v x.value new) (s.mark v)
        x.listeners)
      (transition (assignWithin depth) s v new).1 := by
  have hmark := isChanging_mark hx
  obtain ⟨hmoments, hend⟩ := told_calls depth new (fit_mark hs hx)
    ((value?_mark s v v).trans (value?_of_getElem? hx)) (hs.listeners hx)
  have hascending := hs.ascending hx
  have hlast := received_told hend
  -- a listener stands in the table once if it is there, and otherwise not at all
  have htable : ∀ i, x.listeners.filter (·.1 == i)
      = (s.listener? v i).toList.map fun l => (i, l) := by
    intro i
    rw [filter_eq_of_ascending hascending, listener?_of_getElem? hx]
  rw [transition_of_ne hx hc hne] at hlater ⊢
  constructor
  case busy =>
    intro u hu
    rcases List.mem_cons.1 hu with rfl | hu
    · exact hmark
    · obtain ⟨done, rest, -, htold⟩ := hmoments u hu
      exact htold.changing.trans hmark
  case quiet => exact isChanging_commit _ v new
  case next => exact hlater.next
  case hears =>
    intro i _ u hu
    rcases List.mem_cons.1 hu with rfl | hu
    · exact .inl rfl
    · obtain ⟨done, rest, hsplit, htold⟩ := hmoments u hu
      rw [hsplit] at hascending
      -- its one call is still to come, or it is among those that have been made
      rcases filter_eq_nil_or hascending i with hnone | hall
      · refine .inl ?_
        rw [received_told htold, hnone]
        exact List.append_nil _
      · refine .inr ((received_told htold i).trans (Eq.trans ?_ (hlast i).symm))
        rw [hall, hsplit]
  case stays => exact fun i hi => hlater.listens hi
  case course =>
    refine .inr ⟨x.value, new, value?_of_getElem? hx, value?_commit hend.value new, hne,
      fun i _ => ⟨fun h => ?_, fun h => ?_⟩⟩
    · obtain ⟨l, hl⟩ := Option.isSome_iff_exists.1 h
      refine (hlast i).trans ?_
      rw [htable, hl]
      rfl
    · refine (hlast i).trans ?_
      rw [htable, Option.not_isSome_iff_eq_none.1 h]
      exact List.append_nil _

/-! ## Setting variables -/

/-- A change of another variable. -/
theorem tells_change_other (ha : ∀ n, (tells v n).Covers (assignWithin depth) (momentsWithin depth))
    {x : Variable} (hx : s.vars[w]? = some x) (hc : x.locked = false)
    (hne : x.value.same new = false) (hw : w ≠ v) :
    tells v n s (s.mark w :: foldMoments (call (assignWithin depth) w x.value new)
        (callMoments (assignWithin depth) (momentsWithin depth) w x.value new) (s.mark w)
        x.listeners ++ [(transition (assignWithin depth) s w new).1])
      (transition (assignWithin depth) s w new).1 := by
  intro hs
  have hnow : s.Tracked v s.nextListener := ⟨hs.numbered, Nat.le_refl _, hs.quiet⟩
  have hmark : tells v s.nextListener s [s.mark w] (s.mark w) := tells_other (.mark s hw)
  -- the listeners that are called belong to `w`, and what they set is covered by `ha`
  have hcalls := Account.calls closed_tells looks_tells (ha s.nextListener) x.value new
    x.listeners (fun t c hc hl ht => by
      obtain ⟨l, hl, hcl⟩ := hl
      have hlt : c.listener < t.nextListener :=
        hcl ▸ Nat.lt_of_lt_of_le (hs.numbered.listeners hx l hl) ht.next
      exact tells_other (.note t (hc ▸ hw) hlt) ht) (s.mark w)
  have hcommit : ∀ t : State, tells v s.nextListener t [t.commit w new] (t.commit w new) :=
    fun t => tells_other (Move.commit (P := (· ≠ v)) t hw new)
  rw [transition_of_ne hx hc hne]
  obtain ⟨hstory, hend⟩ :=
    closed_tells.append (closed_tells.append hmark hcalls) (hcommit _) hnow
  exact ⟨hstory, hend.numbered, Nat.le_trans hs.next hend.next, hend.quiet⟩

theorem tells_transition (ha : ∀ n, (tells v n).Covers (assignWithin depth) (momentsWithin depth)) :
    (tells v n).Covers (transition (assignWithin depth))
      (transitionMoments (assignWithin depth) (momentsWithin depth)) := by
  intro s w new
  cases hx : s.vars[w]? with
  | none =>
      simp only [transition, transitionMoments, hx]
      exact closed_tells.start s
  | some x =>
      cases hc : x.locked with
      | true =>
          simp only [transition, transitionMoments, hx, hc, if_true]
          exact tells_other (.stuck s)
      | false =>
          cases hne : x.value.same new with
          | true =>
              rw [transition_of_same hx hc hne]
              simp only [transitionMoments, hx, hc, hne, if_true, Bool.false_eq_true, if_false]
              exact closed_tells.start s
          | false =>
              simp only [transitionMoments, hx, hc, hne, Bool.false_eq_true, if_false]
              by_cases hw : w = v
              · subst hw
                intro hs
                -- the change as a path keeps what is known of listeners
                have hpath := paths_transition (P := fun _ => True) (n := 0)
                  (fun n => paths_assignWithin depth n) s w new hs.numbered.fit
                have hstretch := stretch_change hs.numbered hx hc hne hpath.later_end
                exact ⟨.one hstretch, hpath.numbered hs.numbered _ hpath.mem_or_eq,
                  Nat.le_trans hs.next hpath.later_end.next, hstretch.quiet⟩
              · exact tells_change_other ha hx hc hne hw

theorem tells_assignWithin (depth : Nat) :
    ∀ n, (tells v n).Covers (assignWithin depth) (momentsWithin depth) := by
  induction depth with
  | zero => exact fun _ s _ _ => tells_other (.stuck s)
  | succ depth ih => exact fun _ => tells_transition ih

theorem tells_assign : (tells v n).Covers assign assignMoments :=
  fun s w new => tells_assignWithin (s.vars.size + 1) n s w new

/-! ## Sessions -/

/-- A new variable. -/
theorem tells_new {x : Variable} (h : Move (fun _ => True) s t) (hvars : t.vars = s.vars.push x)
    (hcalls : t.calls = s.calls) (hx : x.changing = false) : tells v n s [t] t := by
  refine tells_move h (fun c hc => ?_) (by rw [callsOf, callsOf, hcalls]) fun hs => ?_
  · obtain ⟨y, hy, rfl⟩ := Option.map_eq_some_iff.1 hc
    rw [value?, hvars]
    exact congrArg (Option.map _) (getElem?_add_of_some hy)
  · have hget : t.vars[v]? = if v = s.vars.size then some x else s.vars[v]? := by
      rw [hvars]
      exact Array.getElem?_push
    rw [isChanging, hget]
    split
    · exact hx
    · exact hs

theorem tells_obtain (name : String) (kind : Kind) (value : Value) (description : String) :
    tells v n s [(s.obtain name kind value description).1]
      (s.obtain name kind value description).1 := by
  rcases s.obtain_cases name kind value description with ⟨l, -, hobtain⟩ | ⟨hlookup, hobtain⟩
  · rw [hobtain]
    exact tells_other (.logging s l)
  · rw [hobtain]
    exact tells_new (.register s trivial rfl hlookup) rfl rfl rfl

theorem tells_operate (s : State) (operation : Operation) :
    tells v n s (s.operationMoments operation) (s.operate operation) := by
  cases operation with
  | obtain name kind value description => exact tells_obtain name kind value description
  | create name kind value description => exact tells_new (.add s trivial rfl) rfl rfl rfl
  | clear => exact tells_other (.clear s)
  | set w value => exact tells_assign s w value
  | setText w text => exact Account.text closed_tells tells_assign s w text
  | setNode w node => exact Account.node closed_tells tells_assign s w node
  | load document => exact Account.load closed_tells tells_assign s document
  | listen w l => exact closed_tells.listen s w l
  | listenWith w init l =>
      exact Account.listenWith closed_tells looks_tells tells_assign s w init l
  | unlisten w j => exact closed_tells.unlisten s w j
  | unlistenAll w => exact closed_tells.unlistenAll s w

/-- A session is a story for every variable that is not being changed when it begins. -/
theorem story_session (operations : List Operation) (hs : s.Tracked v n) :
    Story v s (s.sessionMoments operations) (s.session operations) :=
  (Account.foldl closed_tells operations (fun s operation _ => tells_operate s operation) s hs).1

/-! ## From the moment on at which a listener is added -/

/-- What a listener that has just been added is told. Whenever the variable is not being changed,
this is a chain of changes that starts with a value, and as long as nobody has taken the listener
away it ends with the value of the variable. When the listener is taken away, the chain is ended by
the change that is on its way: as soon as the variable is not being changed it ends with the value
of the variable, and from then on the listener is told nothing more. -/
structure GapFree (c : Value) (v : VariableId) (i : ListenerId) (τ : List State) : Prop where
  kept : ∀ before u after, τ = before ++ u :: after → u.isChanging v = false →
    ∃ d, Linked c (u.received v i) d ∧ (Untaken v i (before ++ [u]) → u.value? v = some d)
  left : ∀ before p q rest, τ = before ++ p :: q :: rest → Untaken v i (before ++ [p]) →
    TakesAway v i p q → ∀ mid r after, q :: rest = mid ++ r :: after →
    (∀ u ∈ mid, u.isChanging v = true) → r.isChanging v = false →
    (∃ d, Linked c (r.received v i) d ∧ r.value? v = some d) ∧
    ∀ u ∈ after, u.received v i = r.received v i

/-- A listener that has a number that no call has been made with yet. -/
theorem received_eq_nil (hs : s.Numbered) (hi : s.nextListener ≤ i)
    (hcalls : t.callsOf v = s.callsOf v) : t.received v i = [] := by
  rw [received, hcalls, List.map_eq_nil_iff, List.filter_eq_nil_iff]
  intro c hc
  have hlt := hs.calls c (List.mem_of_mem_filter hc)
  simpa using Nat.ne_of_lt (Nat.lt_of_lt_of_le hlt hi)

variable {c : Value}

/-- Up to each moment the listener is there as long as nobody has taken it away. -/
theorem listens_of_untaken {P : VariableId → Prop} (h : (s :: τ).IsChain (Move P))
    (hi : i < s.nextListener) (hs : s.listens v i) {before after : List State}
    (hsplit : s :: τ = before ++ u :: after) (huntaken : Untaken v i (before ++ [u])) :
    ∀ m ∈ before ++ [u], m.listens v i := by
  intro m hm
  rw [listens, listener?_of_split h hi hsplit huntaken m hm]
  exact hs

theorem Story.gapFree (h : Story v s τ t) (hpath : (s :: τ).IsChain (Move fun _ => True))
    (hlater : (s :: τ).Pairwise Later) (hi : i < s.nextListener) (hs : s.listens v i)
    (hkept : Kept c v i s) : GapFree c v i (s :: τ) := by
  constructor
  case kept =>
    intro before u after hsplit hquiet
    obtain ⟨d, hlinked, hvalue⟩ := h.kept hi hkept u (by simp [hsplit]) hquiet
    refine ⟨d, hlinked, fun huntaken => hvalue ?_⟩
    exact listens_of_untaken hpath hi hs hsplit huntaken u (by simp)
  case left =>
    intro before p q rest hsplit huntaken haway mid r after hmid hbusy hquiet
    have hthere := listens_of_untaken hpath hi hs hsplit huntaken
    have hsplit' : s :: τ = (before ++ p :: mid) ++ r :: after := by
      rw [hsplit, hmid, List.append_assoc, List.cons_append]
    have hs' : ∀ m ∈ s :: τ, i < m.nextListener := by
      intro m hm
      rcases List.mem_cons.1 hm with rfl | hm
      · exact hi
      · exact Nat.lt_of_lt_of_le hi (List.rel_of_pairwise_cons hlater hm).next
    -- the listener is gone after it has been taken away
    have hq : ¬ q.listens v i := by
      rw [listens, haway.listener?]
      exact Bool.false_ne_true
    have hgone : ¬ r.listens v i := by
      have hqr : r ∈ q :: rest := by simp [hmid]
      rcases List.mem_cons.1 hqr with rfl | hr
      · exact hq
      · rw [hsplit] at hlater
        have hpairs := (List.pairwise_cons.1 (List.pairwise_append.1 hlater).2.1).2
        exact fun hr' => hq ((List.rel_of_pairwise_cons hpairs hr).listens
          (hs' q (by simp [hsplit])) hr')
    have hbefore : ∀ u ∈ before ++ p :: mid, u.isChanging v = false → u.listens v i := by
      intro u hu huquiet
      rcases List.mem_append.1 (show u ∈ (before ++ [p]) ++ mid by simpa using hu) with hu | hu
      · exact hthere u hu
      · rw [hbusy u hu] at huquiet
        cases huquiet
    obtain ⟨d, hvalue, hlinked⟩ := h.left hi hs hkept hsplit' hquiet hgone hbefore
    have hr : i < r.nextListener := hs' r (by simp [hsplit'])
    exact ⟨⟨d, hlinked, hvalue⟩, (h.from_quiet hsplit' hquiet).silent hr hgone⟩

/-- A listener that a session adds to a variable that is not being changed is told everything from
then on. -/
theorem gapFree_session (hs : s.Tracked v n) (operations : List Operation)
    {before after : List State} {l : Listener} {x : Variable} (h : s :: s.sessionMoments operations
      = before ++ t :: (t.listen v l).1 :: after) (hx : t.vars[v]? = some x)
    (hc : x.changing = false) :
    GapFree x.value v (t.listen v l).2 ((t.listen v l).1 :: after) := by
  have hpath := path_session hs.numbered operations
  have hchain := hpath.chain
  have hlater := hpath.later
  have ht : t.Numbered := hpath.numbered hs.numbered t (by simp [h])
  rw [h] at hchain hlater
  have hthere : (t.listen v l).1.listener? v (t.listen v l).2 = some l :=
    listener?_listen_self ht hx l
  -- adding the listener leaves the value and the calls as they are
  obtain ⟨hvalue, hchanging, -⟩ := of_frozen ((Move.listen (P := fun _ => False) t v l).frozen
    (v := v) id)
  have hquiet : (t.listen v l).1.isChanging v = false :=
    hchanging.trans ((isChanging_of_getElem? hx).trans hc)
  have hsplit : s :: s.sessionMoments operations
      = (before ++ [t]) ++ (t.listen v l).1 :: after := by
    rw [h, List.append_assoc]
    rfl
  have hstory := (story_session operations hs).from_quiet hsplit hquiet
  have hnew : (t.listen v l).1.received v (t.listen v l).2 = [] :=
    received_eq_nil ht (Nat.le_refl _) rfl
  have hkept : Kept x.value v (t.listen v l).2 (t.listen v l).1 := by
    refine ⟨x.value, ?_, fun _ => hvalue.trans (value?_of_getElem? hx)⟩
    rw [hnew]
    rfl
  exact hstory.gapFree (List.isChain_cons_cons.1 hchain.right_of_append).2
    (List.pairwise_cons.1 (List.pairwise_append.1 hlater).2.1).2 (Nat.lt_succ_self _)
    (Option.isSome_of_eq_some hthere) hkept

/-! ## Looking at a value first -/

/-- Somebody looks at a variable and adds a listener to it: they see its value, the listener is added
when they have done what they do meanwhile, and until then the variable keeps its value and none of
its listeners is called. -/
structure Looked (s : State) (v : VariableId) (x : Variable) (init : Value → Program)
    (l : Listener) : Prop where
  sees : s.listenWith v init l = s.listenWith v (fun _ => init x.value) l
  adds : ∃ σ t, s.listenWithMoments v init l
      = σ ++ [t, (t.listen v l).1, (s.listenWith v init l).1] ∧
    (s.listenWith v init l).2 = (t.listen v l).2 ∧
    ∃ y, t.vars[v]? = some y ∧ y.value = x.value ∧ y.changing = false
  steady : ∀ u ∈ s.listenWithMoments v init l,
    u.value? v = some x.value ∧ u.isChanging v = false ∧ u.callsOf v = s.callsOf v

section

variable {x : Variable} (init : Value → Program) (l : Listener)

theorem listenWith_of_not_locked (hx : s.vars[v]? = some x) (hc : x.locked = false) :
    s.listenWith v init l
      = ((((init x.value).run assign (s.pin v)).listen v l).1.unpin v,
        (((init x.value).run assign (s.pin v)).listen v l).2) :=
  listenAfter_of_not_locked _ hx hc l

theorem listenWithMoments_of_not_locked (hx : s.vars[v]? = some x) (hc : x.locked = false) :
    s.listenWithMoments v init l = (s.pin v ::
      (init x.value).moments assign assignMoments (s.pin v)
        ++ [(((init x.value).run assign (s.pin v)).listen v l).1])
      ++ [(((init x.value).run assign (s.pin v)).listen v l).1.unpin v] := by
  simp only [listenWithMoments, listenAfterMoments, hx, hc, Bool.false_eq_true, if_false]
  rw [listenAfter_of_not_locked _ hx hc]
  simp

/-- The path from the moment when a variable is pinned to the one when nobody looks any more. -/
theorem path_look (hs : s.Numbered) (hx : s.vars[v]? = some x) :
    (s.pin v).Fit (· ≠ v) s.nextListener ∧
      Path (· ≠ v) (s.pin v) ((init x.value).moments assign assignMoments (s.pin v))
        ((init x.value).run assign (s.pin v)) := by
  have hfit : (s.pin v).Fit (· ≠ v) s.nextListener :=
    fit_modify hs (Array.getElem?_eq_some_iff.1 hx).1 ⟨fun _ => rfl, fun _ => rfl⟩
      fun _ => Bool.or_true _
  exact ⟨hfit, Account.run closed_paths looks_paths paths_assign (init x.value) (s.pin v) hfit⟩

/-- As long as somebody looks at a variable, and right after that, it is as it was before. -/
theorem steady_look (hs : s.Numbered) (hx : s.vars[v]? = some x) (hc : x.locked = false) :
    ∀ u ∈ s.listenWithMoments v init l,
      u.value? v = some x.value ∧ u.isChanging v = false ∧ u.callsOf v = s.callsOf v := by
  obtain ⟨hfit, hpath⟩ := path_look init hs hx
  have hlisten := hpath.append (.one (.listen ((init x.value).run assign (s.pin v)) v l))
  have hpinned : (s.pin v).value? v = some x.value ∧ (s.pin v).isChanging v = false := by
    have hchanging := (changing_of_not_locked hc).1
    rw [value?, isChanging, pin, getElem?_modify, if_pos rfl, hx]
    exact ⟨rfl, hchanging⟩
  have hmeanwhile : ∀ u ∈ s.pin v :: ((init x.value).moments assign assignMoments (s.pin v)
      ++ [(((init x.value).run assign (s.pin v)).listen v l).1]),
      u.value? v = some x.value ∧ u.isChanging v = false ∧ u.callsOf v = s.callsOf v := by
    intro u hu
    have h := hlisten.steady hfit u hu
    exact ⟨h.value.trans hpinned.1, h.changing.trans hpinned.2, h.calls⟩
  intro u hu
  rw [listenWithMoments_of_not_locked init l hx hc] at hu
  rcases List.mem_append.1 hu with hu | hu
  · exact hmeanwhile u hu
  · -- taking the pin away leaves the rest of the variable alone
    obtain ⟨hvalue, hchanging, hcalls⟩ :=
      hmeanwhile (((init x.value).run assign (s.pin v)).listen v l).1 (by simp)
    rw [List.mem_singleton.1 hu]
    refine ⟨(map_getElem?_modify ?_ _).trans hvalue,
      (congrArg (·.getD false) (map_getElem?_modify ?_ _)).trans hchanging, hcalls⟩
    · exact fun _ _ => rfl
    · exact fun _ _ => rfl

theorem looked (hs : s.Numbered) (hx : s.vars[v]? = some x) (hc : x.locked = false) :
    Looked s v x init l := by
  have hsteady := steady_look init l hs hx hc
  have hmoments := listenWithMoments_of_not_locked init l hx hc
  have hlook := listenWith_of_not_locked init l hx hc
  constructor
  case sees => simp only [listenWith, listenAfter, hx]
  case adds =>
    obtain ⟨σ, hσ⟩ := (path_look init hs hx).2.exists_eq_snoc
    rw [hσ] at hmoments
    refine ⟨σ, (init x.value).run assign (s.pin v), ?_, by rw [hlook], ?_⟩
    · rw [hmoments, hlook]
      simp
    · obtain ⟨hvalue, hchanging, -⟩ :=
        hsteady ((init x.value).run assign (s.pin v)) (by simp [hmoments])
      obtain ⟨y, hy, hyvalue⟩ := Option.map_eq_some_iff.1 hvalue
      exact ⟨y, hy, hyvalue, (isChanging_of_getElem? hy).symm.trans hchanging⟩
  case steady => exact hsteady

end

/-- Whatever is done in a session, from outside or by listeners, a listener that is added to a
variable while no change of it is on its way misses nothing. Whoever looks at the value first misses
nothing either, since the variable keeps it until the listener is there. -/
theorem gap_free (start : Logging.State) (operations : List Operation) :
    (∀ before t after v x l, fresh start :: (fresh start).sessionMoments operations
        = before ++ t :: (t.listen v l).1 :: after → t.vars[v]? = some x → x.changing = false →
      GapFree x.value v (t.listen v l).2 ((t.listen v l).1 :: after)) ∧
    ∀ s ∈ fresh start :: (fresh start).sessionMoments operations, ∀ v x init l,
      s.vars[v]? = some x → x.locked = false → Looked s v x init l := by
  have hfresh : ∀ v, (fresh start).Tracked v 0 := fun v =>
    ⟨numbered_fresh start, Nat.zero_le _, rfl⟩
  constructor
  · intro before t after v x l h hx hc
    exact gapFree_session (hfresh v) operations h hx hc
  · intro s hs v x init l hx hc
    have hpath := path_session (numbered_fresh start) operations
    exact looked init l (hpath.numbered (numbered_fresh start) s hs) hx hc

/-- A listener that goes away when it is told of a certain value. -/
def quits (value : Value) : Listener where
  told _ new := if new.same value then .unlisten 0 2 fun _ => .done else .done

/-- Changes of the second variable are handed on to the first one. A listener is added to that one
after a look at its value, is told of a change that has been handed on, and goes away when the
variable is set from a text. -/
def errands : List Operation := [
  .create "a" (.whole .i32) (.whole 1) "", .create "b" (.whole .i32) (.whole 1) "",
  .listen 1 (handOn 0), .listenWith 0 (fun value => .remember value .done) (quits (.whole 6)),
  .set 1 (.whole 5), .setText 0 "6", .set 1 (.whole 7)]

/-- All that happens meanwhile. -/
def errandsMoments : List State :=
  fresh { files := .start [] } :: (fresh { files := .start [] }).sessionMoments errands

/-- What has been done when somebody has looked at the first variable. -/
def seen : State :=
  (((fresh { files := .start [] }).session (errands.take 3)).pin 0).remember (.whole 1)

theorem gap_free_scene :
    (∃ before after, errandsMoments = before ++ seen :: (seen.listen 0 (quits (.whole 6))).1 :: after ∧
      GapFree (.whole 1) 0 2 ((seen.listen 0 (quits (.whole 6))).1 :: after)) ∧
    Looked ((fresh { files := .start [] }).session (errands.take 3)) 0
      (.new "a" (.whole .i32) (.whole 1) "") (fun value => .remember value .done)
      (quits (.whole 6)) ∧
    ((fresh { files := .start [] }).session errands).received 0 2
      = [(.whole 1, .whole 5), (.whole 5, .whole 6)] ∧
    ((fresh { files := .start [] }).session errands).value? 0 = some (.whole 7) := by
  obtain ⟨hadded, hlooked⟩ := gap_free { files := .start [] } errands
  have hsplit : errandsMoments = errandsMoments.take 5
      ++ seen :: (seen.listen 0 (quits (.whole 6))).1 :: errandsMoments.drop 7 := rfl
  have hmem : (fresh { files := .start [] }).session (errands.take 3) ∈ errandsMoments :=
    List.mem_of_getElem? (i := 3) rfl
  exact ⟨⟨_, _, hsplit, hadded _ _ _ 0 _ _ hsplit rfl rfl⟩, hlooked _ hmem 0 _ _ _ rfl rfl, rfl, rfl⟩

end ConfigLog.Config.State
