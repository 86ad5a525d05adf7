import ConfigLog.Proofs.Logging.Recovery
import Mathlib.Data.List.Induction

set_option autoImplicit false

/-! # The way of a record through the bridge

A target consists of segments with double colons between them. The bridge looks for a logger with
the name of the whole target, then without its last segment, and so on; it comes to the logger that
bears the most of the first segments, or to the root (`nearest_route`). Outside of a record that is
being written, that logger gets the event of the record as `State.log` gives it one, while the flag
is set (`bridge_eq_log`).
-/

namespace ConfigLog.Logging

/-! ## Targets in segments -/

/-- The target with some segments. -/
def targetOf (segments : List String) : String := "::".intercalate segments

theorem beforeColons_eq_none {cs : List Char} (h : ':' ∉ cs) : beforeColons cs = none := by
  fun_induction beforeColons cs with
  | case1 => rfl
  | case2 => rfl
  | case3 a b r hab =>
      simp only [Bool.and_eq_true, beq_iff_eq] at hab
      exact absurd (hab.1 ▸ List.mem_cons_self) h
  | case4 a b r hab ih => exact ih fun hmem => h (List.mem_cons_of_mem a hmem)

/-- The last double colon stands right before the last segment, if that has no colon. -/
theorem beforeColons_append {cs : List Char} (h : ':' ∉ cs) (r : List Char) :
    beforeColons (cs ++ ':' :: ':' :: r) = some r := by
  induction cs with
  | nil => simp [beforeColons]
  | cons a cs ih =>
      have ha : (a == ':') = false := by
        rw [beq_eq_false_iff_ne]
        rintro rfl
        exact h List.mem_cons_self
      have hrest := ih fun hmem => h (List.mem_cons_of_mem a hmem)
      cases cs with
      | nil => simp [beforeColons, ha]
      | cons b cs => simpa [beforeColons, ha] using hrest

theorem targetsAbove_of_some {cs r : List Char} (h : beforeColons cs = some r) :
    targetsAbove cs = String.ofList cs.reverse :: targetsAbove r := by
  rw [targetsAbove]
  split
  · rename_i r' h'
    rw [Option.some.inj (h.symm.trans h')]
  · rename_i h'
    cases h.symm.trans h'

theorem targetsAbove_of_none {cs : List Char} (h : beforeColons cs = none) :
    targetsAbove cs = [String.ofList cs.reverse] := by
  rw [targetsAbove]
  split
  · rename_i h'
    cases h.symm.trans h'
  · rfl

/-- The targets that the search goes through: the target itself, and then with one segment less each
time, down to the first one. -/
theorem targetsAbove_targetOf {segments : List String} (hne : segments ≠ [])
    (hcolon : ∀ x ∈ segments, ':' ∉ x.toList) :
    targetsAbove (targetOf segments).toList.reverse
      = (List.range segments.length).reverse.map fun k => targetOf (segments.take (k + 1)) := by
  induction segments using List.reverseRecOn with
  | nil => exact absurd rfl hne
  | append_singleton segments x ih =>
      have hx : ':' ∉ x.toList.reverse := by
        rw [List.mem_reverse]
        exact hcolon x (List.mem_append_right _ List.mem_cons_self)
      have hwhole : (segments ++ [x]).take (segments.length + 1) = segments ++ [x] :=
        List.take_of_length_le (by simp)
      rw [List.length_append, List.length_singleton, List.range_succ, List.reverse_append,
        List.reverse_singleton, List.singleton_append, List.map_cons, hwhole]
      -- the last segment has no colon, so the search goes on right before it
      by_cases hnil : segments = []
      · subst hnil
        have htarget : targetOf ([] ++ [x]) = x := String.intercalate_singleton
        rw [htarget, targetsAbove_of_none (beforeColons_eq_none hx)]
        simp
      · have htarget : targetOf (segments ++ [x]) = targetOf segments ++ "::" ++ x := by
          rw [targetOf, String.intercalate_append_of_ne_nil hnil (List.cons_ne_nil x []),
            String.intercalate_singleton]
          rfl
        have hreverse : (targetOf (segments ++ [x])).toList.reverse
            = x.toList.reverse ++ ':' :: ':' :: (targetOf segments).toList.reverse := by
          rw [htarget]
          simp
        have hrest := ih hnil fun y hy => hcolon y (List.mem_append_left _ hy)
        rw [targetsAbove_of_some (hreverse ▸ beforeColons_append hx _), List.reverse_reverse,
          String.ofList_toList, hrest]
        refine congrArg _ (List.map_congr_left fun k hk => ?_)
        have hk : k + 1 ≤ segments.length := List.mem_range.1 (List.mem_reverse.1 hk)
        rw [List.take_append_of_le_length hk]

/-- Going down from a number, the first thing to be found is the one with the highest number. -/
theorem findSome?_reverse_range {α : Type} (f : Nat → Option α) (n : Nat) :
    (∃ k < n, ∃ a, f k = some a ∧ (List.range n).reverse.findSome? f = some a ∧
      ∀ j, k < j → j < n → f j = none) ∨
    ((List.range n).reverse.findSome? f = none ∧ ∀ k < n, f k = none) := by
  induction n with
  | zero => exact .inr ⟨rfl, fun k hk => absurd hk (Nat.not_lt_zero k)⟩
  | succ n ih =>
      rw [List.range_succ, List.reverse_append, List.reverse_singleton, List.singleton_append,
        List.findSome?_cons]
      cases hn : f n with
      | some a => exact .inl ⟨n, n.lt_succ_self, a, hn, rfl, fun j h h' => by omega⟩
      | none =>
          -- what is found is below, and there is nothing at the number itself
          have hupto : ∀ {k : Nat}, (∀ j, k < j → j < n → f j = none) →
              ∀ j, k < j → j < n + 1 → f j = none := by
            intro k h j hj hlt
            rcases Nat.lt_succ_iff_lt_or_eq.1 hlt with hlt | rfl
            · exact h j hj hlt
            · exact hn
          rcases ih with ⟨k, hk, a, ha, hfound, habove⟩ | ⟨hnone, hall⟩
          · exact .inl ⟨k, Nat.lt_succ_of_lt hk, a, ha, hfound, hupto habove⟩
          · refine .inr ⟨hnone, fun k hk => ?_⟩
            rcases Nat.lt_succ_iff_lt_or_eq.1 hk with hlt | rfl
            · exact hall k hlt
            · exact hn

namespace State

variable {s t : State} {m : ManagerId} {i : LoggerId} {level : Level} {e : Event} {r : Record}

/-- The logger is the nearest one for the target with some segments: no logger of the manager bears
more of the first segments, and it is the root if none bears any. -/
def Nearest (s : State) (m : ManagerId) (segments : List String) (i : LoggerId) : Prop :=
  (∃ k ≤ segments.length, 0 < k ∧
    (s.manager m).find? (targetOf (segments.take k)) = some i ∧
    ∀ j ≤ segments.length, k < j → (s.manager m).find? (targetOf (segments.take j)) = none) ∨
  ((∀ k ≤ segments.length, 0 < k → (s.manager m).find? (targetOf (segments.take k)) = none) ∧
    i = (s.manager m).root)

instance (s : State) (m : ManagerId) (segments : List String) (i : LoggerId) :
    Decidable (s.Nearest m segments i) :=
  inferInstanceAs (Decidable (_ ∨ _))

theorem nearest_route (s : State) (m : ManagerId) {segments : List String} (hne : segments ≠ [])
    (hcolon : ∀ x ∈ segments, ':' ∉ x.toList) :
    s.Nearest m segments (s.route m (targetOf segments)) := by
  unfold route
  rw [targetsAbove_targetOf hne hcolon, List.findSome?_map]
  rcases findSome?_reverse_range
      ((s.manager m).find? ∘ fun k => targetOf (segments.take (k + 1))) segments.length with
    ⟨k, hk, i, hi, hfound, habove⟩ | ⟨hnone, hall⟩
  · refine .inl ⟨k + 1, hk, k.succ_pos, ?_, fun j hle hj => ?_⟩
    · rw [hfound]
      exact hi
    · obtain ⟨j, rfl⟩ := Nat.exists_eq_add_one_of_ne_zero (Nat.ne_zero_of_lt hj)
      exact habove j (Nat.lt_of_succ_lt_succ hj) hle
  · refine .inr ⟨fun k hle hpos => ?_, by rw [hnone]; rfl⟩
    obtain ⟨k, rfl⟩ := Nat.exists_eq_add_one_of_ne_zero (Nat.ne_of_gt hpos)
    exact hall k hle

/-! ## While the flag is set -/

theorem emit_of_bridging (hb : s.bridging = true) (r : Record) :
    s.emit r = s ∨ s.emit r = s.complain r := by
  cases hm : s.facade with
  | none => exact .inl (emit_of_facade_eq_none hm r)
  | some m =>
      have hnested : s.emit r
          = if s.bridgeAccepts m r.target r.level then s.complain r else s :=
        (emit_of_facade hm r).trans (bridgeWithin_of_bridging hb 1 m r)
      rw [hnested]
      split
      · exact .inr rfl
      · exact .inl rfl

/-- While the flag is set, it makes no difference how deep records may go. -/
theorem pass_eq_emit (hb : s.bridging = true) (depth : Nat) (r : Record) :
    pass (depth + 1) r s = s.emit r := by
  cases hm : s.facade with
  | none => simp [pass, emit_of_facade_eq_none hm, hm]
  | some m =>
      rw [pass_of_bridging hm hb, emit_of_facade hm]
      exact (bridgeWithin_of_bridging hb 1 m r).symm

/-- While the flag is set, handing an event to appenders is the same whether the records that come
about go to the facade or are passed on with a bound on their depth. -/
theorem foldl_pass_eq_emit (hb : s.bridging = true) (depth : Nat) (name : String) (level : Level)
    (e : Event) (as : List AppenderId) :
    as.foldl (handOne (pass (depth + 1)) name level e) s
      = as.foldl (handOne (fun r s => s.emit r) name level e) s := by
  induction as generalizing s with
  | nil => rw [List.foldl_nil, List.foldl_nil]
  | cons a as ih =>
      have honce := handedOnce name level e s a
      rw [List.foldl_cons, List.foldl_cons, handOne_eq_handOnce, handOne_eq_handOnce]
      generalize handOnce name level e s a = result at *
      obtain ⟨t, r⟩ := result
      have hbt : t.bridging = true := honce.bridging.trans hb
      cases r with
      | none => exact ih hbt
      | some r =>
          have hback : (t.emit r).bridging = true := by
            rcases emit_of_bridging hbt r with h | h
            · rw [h, hbt]
            · rw [h]
              exact hbt
          simp only [pass_eq_emit hbt]
          exact ih hback

/-- While the flag is set, handing out an event makes nobody attempt to write anything else. -/
theorem attempts_log_of_bridging (hb : s.bridging = true) (i : LoggerId) (level : Level)
    (e : Event) :
    ∃ new, (s.log i level e).attempts = s.attempts ++ new ∧
      new.map Attempt.offer = s.deliveries i level e := by
  refine attempts_foldl (P := fun s => s.bridging = true) (fun r s hb => ?_)
    (fun hb honce => honce.bridging.trans hb) hb (s.receivers i level)
  rcases emit_of_bridging hb r with h | h
  · rw [h]
    exact ⟨hb, rfl, rfl⟩
  · rw [h]
    exact ⟨hb, rfl, rfl⟩

/-! ## Outside of records that are being written -/

/-- The state with the flag set. -/
def busy (s : State) : State := { s with bridging := true }

/-- The state with the flag cleared. -/
def free (s : State) : State := { s with bridging := false }

theorem free_busy (hb : s.bridging = false) : s.busy.free = s := by
  show ({ s with bridging := false } : State) = s
  rw [← hb]

theorem receivers_of_refused (h : (s.logger i).accepts level = false) :
    s.receivers i level = [] := by
  simp [receivers, h]

/-- A record goes the way of an event that is handed to the logger of its target while the flag is
set. -/
theorem bridge_eq_log (hb : s.bridging = false) (m : ManagerId) (r : Record) :
    bridge m r s = (s.busy.log (s.route m r.target) r.level.toLevel (r.event s.stamp)).free := by
  cases ha : s.bridgeAccepts m r.target r.level with
  | false =>
      have hnobody : s.busy.receivers (s.route m r.target) r.level.toLevel = [] :=
        receivers_of_refused ha
      rw [bridge, bridgeWithin_of_refused ha, log, logWith, hnobody]
      exact (free_busy hb).symm
  | true =>
      rw [bridge, bridgeWithin_of_not_bridging ha hb]
      have hsame := foldl_pass_eq_emit (s := s.busy) rfl 0 (s.logger (s.route m r.target)).name
        r.level.toLevel (r.event s.stamp) (s.receivers (s.route m r.target) r.level.toLevel)
      exact congrArg free hsame

theorem deliveries_congr (h : t.setup = s.setup) (i : LoggerId) (level : Level) (e : Event) :
    t.deliveries i level e = s.deliveries i level e := by
  simp only [deliveries, receivers, logger_congr h, isFor_congr h, attempt_congr h]

theorem attempts_bridge (hb : s.bridging = false) (m : ManagerId) (r : Record) :
    ∃ new, (bridge m r s).attempts = s.attempts ++ new ∧
      new.map Attempt.offer
        = s.deliveries (s.route m r.target) r.level.toLevel (r.event s.stamp) := by
  have hsetup : s.busy.setup = s.setup := rfl
  obtain ⟨new, hnew, hoffers⟩ :=
    attempts_log_of_bridging (s := s.busy) rfl (s.route m r.target) r.level.toLevel
      (r.event s.stamp)
  rw [deliveries_congr hsetup] at hoffers
  rw [bridge_eq_log hb]
  exact ⟨new, hnew, hoffers⟩

/-! ## Events that are handed out apart from any record -/

theorem attempts_emit (s : State) (r : Record) :
    ∃ more, (s.emit r).attempts = s.attempts ++ more := by
  cases hb : s.bridging with
  | true =>
      refine ⟨[], ?_⟩
      rcases emit_of_bridging hb r with h | h <;> rw [h, List.append_nil]
      rfl
  | false =>
      cases hm : s.facade with
      | none => exact ⟨[], by rw [emit_of_facade_eq_none hm, List.append_nil]⟩
      | some m =>
          obtain ⟨more, hmore, -⟩ := attempts_bridge hb m r
          rw [emit_of_facade hm]
          exact ⟨more, hmore⟩

/-- The appenders of a logger attempt to write an event that is handed to it, whatever is written
for the records that come about meanwhile. -/
theorem attempts_log (s : State) (i : LoggerId) (level : Level) (e : Event) :
    ∃ more, (s.log i level e).attempts = s.attempts ++ more ∧
      (s.deliveries i level e).Sublist (more.map Attempt.offer) := by
  unfold log logWith deliveries
  generalize (s.logger i).name = name
  generalize s.receivers i level = as
  -- on the appenders: after each one the setup is the same, so the others are offered the same
  induction as generalizing s with
  | nil => exact ⟨[], (List.append_nil _).symm, .slnil⟩
  | cons a as ih =>
      have honce := handedOnce name level e s a
      obtain ⟨own, hown, hoffer, -⟩ := honce.attempts
      have hstep : (handOne (fun r s => s.emit r) name level e s a).setup = s.setup ∧
          ∃ more, (handOne (fun r s => s.emit r) name level e s a).attempts
            = s.attempts ++ own ++ more := by
        rw [handOne_eq_handOnce]
        generalize handOnce name level e s a = result at *
        obtain ⟨t, r⟩ := result
        cases r with
        | none => exact ⟨honce.setup, [], hown.trans (List.append_nil _).symm⟩
        | some r =>
            obtain ⟨more, hmore⟩ := attempts_emit t r
            exact ⟨(setup_emit t r).trans honce.setup, more,
              hmore.trans (congrArg (· ++ more) hown)⟩
      obtain ⟨hsetup, more, hmore⟩ := hstep
      obtain ⟨rest, hrest, hsub⟩ := ih (handOne (fun r s => s.emit r) name level e s a)
      refine ⟨own ++ (more ++ rest), ?_, ?_⟩
      · rw [List.foldl_cons, hrest, hmore, List.append_assoc, List.append_assoc]
      · rw [isFor_congr hsetup, attempt_congr hsetup] at hsub
        have hsplit : (a :: as).filter (s.isFor level)
            = [a].filter (s.isFor level) ++ as.filter (s.isFor level) := by
          rw [← List.filter_append]
          rfl
        rw [List.map_append, List.map_append, hoffer, hsplit, List.map_append]
        exact (List.Sublist.refl _).append (hsub.trans (List.sublist_append_right _ _))

/-! ## Without further records -/

/-- Handing an event to the appenders leads to nothing but what they write themselves: there is no
facade, or each of them has a sink that takes texts and need not be opened. -/
def Undisturbed (s : State) (as : List AppenderId) : Prop :=
  s.facade = none ∨ ∀ a ∈ as, ∀ x : Appender, s.appenders[a]? = some x → x.takes? = some true

theorem isOpen_of_takes? {x : Appender} (h : x.takes? = some true) : x.isOpen := by
  unfold Appender.takes? at h
  unfold Appender.isOpen
  cases hbroken : x.broken with
  | some reason => simp [hbroken] at h
  | none => simpa [hbroken] using h

theorem handOnce_snd_of_takes {a : AppenderId} (name : String) (level : Level) (e : Event)
    (h : ∀ x : Appender, s.appenders[a]? = some x → x.takes? = some true) :
    (handOnce name level e s a).2 = none := by
  unfold handOnce
  cases hx : s.appenders[a]? with
  | none => rfl
  | some x =>
      obtain ⟨files, hgive⟩ := give_of_isOpen (s := s) (isOpen_of_takes? (h x hx)) a
        (x.pattern.render s.times name level e)
      cases hl : x.accepts level <;> simp [hl, hgive]

theorem foldl_handOne_of_undisturbed {as : List AppenderId} (h : s.Undisturbed as) (name : String)
    (level : Level) (e : Event) :
    as.foldl (handOne (fun r s => s.emit r) name level e) s
      = as.foldl (fun s a => (handOnce name level e s a).1) s := by
  induction as generalizing s with
  | nil => rfl
  | cons a as ih =>
      have honce := handedOnce name level e s a
      have hstep : handOne (fun r s => s.emit r) name level e s a
          = (handOnce name level e s a).1 := by
        rcases h with hf | htakes
        · exact handOne_of_facade_eq_none hf name level e a
        · have hnone := handOnce_snd_of_takes name level e (htakes a List.mem_cons_self)
          rw [handOne_eq_handOnce]
          generalize handOnce name level e s a = result at *
          obtain ⟨t, r⟩ := result
          obtain rfl : r = none := hnone
          rfl
      rw [List.foldl_cons, List.foldl_cons, hstep]
      refine ih (h.imp (fun hf => (facade_congr honce.setup).trans hf) fun htakes b hb x hx => ?_)
      -- an appender that takes texts stays as it is
      have hlt : b < s.appenders.size := by
        rw [← size_appenders_congr honce.setup]
        exact (Array.getElem?_eq_some_iff.1 hx).1
      have hy := Array.getElem?_eq_getElem hlt
      have hsink := htakes b (List.mem_cons_of_mem a hb) _ hy
      obtain ⟨z, hz, htakes⟩ := honce.kept b _ _ hy hsink
      exact Option.some.inj (hz.symm.trans hx) ▸ htakes

theorem put_busy (s : State) (broken : Option String) (handle : Option Nat) (text : String) :
    s.busy.put broken handle text
      = ((s.put broken handle text).1.busy, (s.put broken handle text).2) := by
  cases broken <;> cases handle <;> rfl

theorem openAgain_busy (s : State) (a : AppenderId) (path : String) :
    s.busy.openAgain a path = ((s.openAgain a path).1.busy, (s.openAgain a path).2) := by
  simp only [openAgain, busy]
  rcases s.files.openAppend path with ⟨files, error | handle⟩ <;> rfl

theorem give_busy (s : State) (a : AppenderId) (x : Appender) (text : String) :
    s.busy.give a x text = ((s.give a x text).1.busy, (s.give a x text).2) := by
  unfold give
  split
  · rename_i path _
    rw [openAgain_busy]
    obtain ⟨t, error | handle⟩ := s.openAgain a path
    · rfl
    · simp only [put_busy]
  · simp only [put_busy]

theorem handOnce_busy (name : String) (level : Level) (e : Event) (s : State) (a : AppenderId) :
    (handOnce name level e s.busy a).1 = (handOnce name level e s a).1.busy := by
  unfold handOnce
  cases hx : s.appenders[a]? with
  | none => simp only [busy, hx]
  | some x =>
      have hbusy : s.busy.appenders[a]? = some x := hx
      simp only [hbusy, give_busy]
      cases x.accepts level <;> rfl

theorem foldl_handOnce_busy (name : String) (level : Level) (e : Event) (as : List AppenderId)
    (s : State) :
    as.foldl (fun s a => (handOnce name level e s a).1) s.busy
      = (as.foldl (fun s a => (handOnce name level e s a).1) s).busy := by
  induction as generalizing s with
  | nil => rfl
  | cons a as ih => rw [List.foldl_cons, List.foldl_cons, handOnce_busy, ih]

theorem bridging_foldl_handOnce (name : String) (level : Level) (e : Event) (as : List AppenderId)
    (s : State) :
    (as.foldl (fun s a => (handOnce name level e s a).1) s).bridging = s.bridging := by
  induction as generalizing s with
  | nil => rfl
  | cons a as ih => exact (ih _).trans (handedOnce name level e s a).bridging

/-- Where no further records come about, a record is an event for the logger of its target, and
nothing else. -/
theorem bridge_eq_log_of_undisturbed (hb : s.bridging = false) (m : ManagerId) (r : Record)
    (hq : s.Undisturbed (s.receivers (s.route m r.target) r.level.toLevel)) :
    bridge m r s = s.log (s.route m r.target) r.level.toLevel (r.event s.stamp) := by
  have hbusy : s.busy.Undisturbed (s.receivers (s.route m r.target) r.level.toLevel) := hq
  have hlog : s.busy.log (s.route m r.target) r.level.toLevel (r.event s.stamp)
      = (s.log (s.route m r.target) r.level.toLevel (r.event s.stamp)).busy := by
    rw [log, log, logWith, logWith]
    rw [foldl_handOne_of_undisturbed hq]
    exact (foldl_handOne_of_undisturbed hbusy _ _ _).trans (foldl_handOnce_busy _ _ _ _ s)
  rw [bridge_eq_log hb, hlog, log, logWith, foldl_handOne_of_undisturbed hq]
  exact free_busy ((bridging_foldl_handOnce _ _ _ _ s).trans hb)

/-! ## The law -/

theorem Nearest.unique {segments : List String} {j : LoggerId} (h : s.Nearest m segments i)
    (h' : s.Nearest m segments j) : i = j := by
  rcases h with ⟨k, hle, hpos, hfind, habove⟩ | ⟨hall, rfl⟩ <;>
    rcases h' with ⟨k', hle', hpos', hfind', habove'⟩ | ⟨hall', rfl⟩
  · rcases Nat.lt_trichotomy k k' with hlt | rfl | hlt
    · exact nomatch hfind'.symm.trans (habove k' hle' hlt)
    · exact Option.some.inj (hfind.symm.trans hfind')
    · exact nomatch hfind.symm.trans (habove' k hle hlt)
  · exact nomatch hfind.symm.trans (hall' k hle hpos)
  · exact nomatch hfind'.symm.trans (hall k' hle' hpos')
  · rfl

theorem bridgeAccepts_iff : s.bridgeAccepts m r.target r.level = true ↔
    (s.logger (s.route m r.target)).level ≤ r.level.toLevel := by
  have hon : r.level.toLevel ≠ .off := by cases r.level <;> decide
  simp [bridgeAccepts, Logger.accepts, hon]

/-- How a record is handled by a logger. -/
structure Handled (s : State) (m : ManagerId) (i : LoggerId) (r : Record) : Prop where
  /-- The bridge takes the record if the logger takes its level. -/
  accepts : s.bridgeAccepts m r.target r.level = true ↔ (s.logger i).level ≤ r.level.toLevel
  /-- No logger is created, and nothing about the loggers and the appenders changes. -/
  setup : (bridge m r s).setup = s.setup
  /-- The record goes the way of an event for the logger, with the flag set meanwhile. -/
  way : s.bridging = false → bridge m r s = (s.busy.log i r.level.toLevel (r.event s.stamp)).free
  /-- So there is no difference to the event at all, unless further records come about. -/
  same : s.bridging = false → s.Undisturbed (s.receivers i r.level.toLevel) →
    bridge m r s = s.log i r.level.toLevel (r.event s.stamp)
  /-- In any case what is written is what the appenders write for the event. Whatever else is
  written when the event is handed out by itself is written for further records. -/
  writes : s.bridging = false → ∃ new more, (bridge m r s).attempts = s.attempts ++ new ∧
    new.map Attempt.offer = s.deliveries i r.level.toLevel (r.event s.stamp) ∧
    (s.log i r.level.toLevel (r.event s.stamp)).attempts = s.attempts ++ more ∧
    (s.deliveries i r.level.toLevel (r.event s.stamp)).Sublist (more.map Attempt.offer)

theorem handled_route (s : State) (m : ManagerId) (r : Record) :
    s.Handled m (s.route m r.target) r where
  accepts := bridgeAccepts_iff
  setup := (writes_bridgeWithin 2 m r s).setup
  way hb := bridge_eq_log hb m r
  same hb hq := bridge_eq_log_of_undisturbed hb m r hq
  writes hb := by
    obtain ⟨new, hnew, hoffers⟩ := attempts_bridge hb m r
    obtain ⟨more, hmore, hsub⟩ :=
      attempts_log s (s.route m r.target) r.level.toLevel (r.event s.stamp)
    exact ⟨new, more, hnew, hoffers, hmore, hsub⟩

/-- Every target has one nearest logger. The search looks up as many names as the target has
segments and comes to that logger, which handles the records of the target. -/
theorem bridge_nearest (s : State) (m : ManagerId) {segments : List String} (hne : segments ≠ [])
    (hcolon : ∀ x ∈ segments, ':' ∉ x.toList) :
    (targetsAbove (targetOf segments).toList.reverse).length = segments.length ∧
    (∃ i, s.Nearest m segments i) ∧
    ∀ i, s.Nearest m segments i → s.route m (targetOf segments) = i ∧
      ∀ r : Record, r.target = targetOf segments → s.Handled m i r := by
  have hroute := nearest_route s m hne hcolon
  refine ⟨?_, ⟨_, hroute⟩, fun i hi => ?_⟩
  · rw [targetsAbove_targetOf hne hcolon, List.length_map, List.length_reverse, List.length_range]
  · obtain rfl := hroute.unique hi
    refine ⟨rfl, fun r hr => ?_⟩
    rw [← hr]
    exact handled_route s m r

/-- A manager with loggers for two targets, one of which is above the other one. -/
def layered : State :=
  ((({ files := .start [] } : State).addManager.1.obtain 0 "app").1.obtain 0 "app::db").1

theorem bridge_nearest_layered :
    let r : Record := { level := .trace, target := "app::db::pool::", message := "open" }
    r.target = targetOf ["app", "db", "pool", ""] ∧
    layered.route 0 r.target = 2 ∧ layered.bridgeAccepts 0 r.target r.level = true ∧
    bridge 0 r layered = layered.log 2 .debug { message := "open" } := by
  intro r
  have htarget : r.target = targetOf ["app", "db", "pool", ""] := by decide
  have hne : ["app", "db", "pool", ""] ≠ [] := by decide
  obtain ⟨-, -, hnearest⟩ := bridge_nearest layered 0 hne (by decide)
  obtain ⟨hroute, hhandled⟩ := hnearest 2 (by decide)
  have h := hhandled r htarget
  exact ⟨htarget, htarget ▸ hroute, h.accepts.2 (by decide), h.same rfl (.inl rfl)⟩

/-- The records of the program go to a manager, which has a logger with an appender that fails. -/
def ailing : State :=
  let (s, a) := (({ files := .start [] } : State).addManager.1.obtain 0 "x").1.addAppender
    { sink := .custom, broken := some "sink unavailable" }
  { s.attach 1 a with facade := some 0 }

/-- The failure of an appender is a record itself. It goes through the bridge if an event is handed
to the logger, and to standard error if that is done for a record. -/
theorem not_forall_bridge_eq_log : ¬ ∀ (s : State) (m : ManagerId) (segments : List String)
    (i : LoggerId) (r : Record), segments ≠ [] → (∀ x ∈ segments, ':' ∉ x.toList) →
    s.Nearest m segments i → r.target = targetOf segments → s.bridging = false →
    bridge m r s = s.log i r.level.toLevel (r.event s.stamp) := by
  intro h
  -- the event leads to the attempt of the logger, and then to one of the root
  let failed := failedRecord "x" (.sinkFailed "sink unavailable")
  let noted := (handOnce "x" .info { message := "m" } ailing 1).1
  have hlog : ailing.log 1 .info { message := "m" } = bridge 0 failed noted := rfl
  have hfailed : ["livelog", "logging", "logger"] ≠ [] := by decide
  have hroot : noted.route 0 failed.target = 0 :=
    (nearest_route noted 0 hfailed (by decide)).unique (by decide)
  obtain ⟨more, hmore, hmoreOffers⟩ := attempts_bridge (s := noted) rfl 0 failed
  rw [hroot] at hmoreOffers
  -- the record leads to the attempt of the logger only
  let r : Record := { level := .info, target := "x", message := "m" }
  have htarget : ["x"] ≠ [] := by decide
  have hlogger : ailing.route 0 r.target = 1 :=
    (nearest_route ailing 0 htarget (by decide)).unique (by decide)
  obtain ⟨new, hnew, hnewOffers⟩ := attempts_bridge (s := ailing) rfl 0 r
  rw [hlogger] at hnewOffers
  have hsame := h ailing 0 ["x"] 1 r htarget (by decide) (by decide) rfl rfl
  have hattempts := congrArg (fun s => s.attempts.map Attempt.offer) (hsame.trans hlog)
  simp only [hnew, hmore, List.map_append, hnewOffers, hmoreOffers] at hattempts
  have hlength := congrArg List.length hattempts
  revert hlength
  decide

end State

end ConfigLog.Logging
