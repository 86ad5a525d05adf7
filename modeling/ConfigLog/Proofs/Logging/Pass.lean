import ConfigLog.Proofs.Logging.Definitions
import ConfigLog.Proofs.Logging.Outcome

set_option autoImplicit false

/-! # Passes over lists of actions

`State.carryOut` carries out a list of actions; a reconciliation does so with its plan. The report
of a pass puts together the reports on the single actions (`carryOut_cons`). `Carried` takes a pass
apart into the actions that failed, which change nothing, and those that did what they should. From
it comes what a pass leaves alone (`Carried.find?`, `Carried.untouched`) and what it makes of the
rest (`Carried.status?`). What all the steps of a pass keep, a reconciliation keeps
(`reconcile_keeps`).
-/

namespace ConfigLog.Logging

/-! ## Reports -/

namespace Reconciliation

/-- Two reports as one. -/
def append (r q : Reconciliation) : Reconciliation where
  applied := r.applied ++ q.applied
  disabled := r.disabled ++ q.disabled
  failed := r.failed ++ q.failed

theorem append_empty (r : Reconciliation) : r.append {} = r := by
  simp [append]

theorem append_assoc (r q u : Reconciliation) : (r.append q).append u = r.append (q.append u) := by
  simp [append, List.append_assoc]

/-- The names that failed. -/
def failedNames (r : Reconciliation) : List String := r.failed.map (·.1)

/-- The actions of a list whose names have not failed. -/
def done (r : Reconciliation) (as : List Action) : List Action :=
  as.filter fun a => !r.failedNames.contains a.name

end Reconciliation

/-- The action does not fail when files can be opened as told. -/
def Action.buildable (times : TimeFormat) (opens : String → Bool) : Action → Bool
  | .apply d => d.buildable times opens
  | .disable _ => true

namespace State

variable {s t u : State} {m : ManagerId} {a : Action} {as done : List Action} {r : Reconciliation}

/-! ## Carrying out -/

/-- Carries out actions one after the other. -/
def carryOut (s : State) (m : ManagerId) (as : List Action) : State × Reconciliation :=
  as.foldl (perform m) (s, {})

theorem reconcile_eq (s : State) (m : ManagerId) (old new : Definitions) :
    s.reconcile m old new = s.carryOut m (plan old new) := rfl

theorem perform_eq (m : ManagerId) (s : State) (r : Reconciliation) (a : Action) :
    perform m (s, r) a
      = ((perform m (s, {}) a).1, r.append (perform m (s, {}) a).2) := by
  cases a with
  | apply d =>
      simp only [perform]
      split <;> simp [Reconciliation.append]
  | disable name => simp [perform, Reconciliation.append]

theorem foldl_perform (m : ManagerId) (as : List Action) (s : State) (r : Reconciliation) :
    as.foldl (perform m) (s, r)
      = ((s.carryOut m as).1, r.append (s.carryOut m as).2) := by
  induction as generalizing s r with
  | nil => rw [carryOut, List.foldl_nil, List.foldl_nil, Reconciliation.append_empty]
  | cons a as ih =>
      rw [carryOut, List.foldl_cons, List.foldl_cons, perform_eq m s r, perform_eq m s {}, ih, ih,
        Reconciliation.append_assoc]

theorem carryOut_cons (s : State) (m : ManagerId) (a : Action) (as : List Action) :
    s.carryOut m (a :: as)
      = (((perform m (s, {}) a).1.carryOut m as).1,
          (perform m (s, {}) a).2.append ((perform m (s, {}) a).1.carryOut m as).2) := by
  rw [carryOut, List.foldl_cons]
  exact foldl_perform m as _ _

/-! ## Passes step by step -/

/-- A pass over a list of actions, with those that did not fail, the state that it ends in and the
report. -/
inductive Carried (m : ManagerId) :
    State → List Action → List Action → State → Reconciliation → Prop
  | nil (s : State) : Carried m s [] [] s {}
  | failed {s t u : State} {d : Definition} {e : LogError} {as done : List Action}
      {r : Reconciliation} (h : t.setup = s.setup) (rest : Carried m t as done u r) :
      Carried m s (.apply d :: as) done u (.append { failed := [(d.name, e)] } r)
  | achieved {s t u : State} {a : Action} {as done : List Action} {r : Reconciliation}
      (h : Achieved m a s t) (rest : Carried m t as done u r) :
      Carried m s (a :: as) (a :: done) u (a.success.append r)

theorem carried_carryOut (hs : s.Sound) (hm : m < s.managers.size) (as : List Action) :
    ∃ done, Carried m s as done (s.carryOut m as).1 (s.carryOut m as).2 := by
  induction as generalizing s with
  | nil => exact ⟨[], .nil s⟩
  | cons a as ih =>
      rw [carryOut_cons]
      rcases perform_cases hs hm a with ⟨d, e, rfl, hr, hset⟩ | ⟨hr, ha⟩
      · obtain ⟨done, hc⟩ := ih (hs.congr hset) (by rwa [managers_congr hset])
        rw [hr]
        exact ⟨done, .failed hset hc⟩
      · obtain ⟨done, hc⟩ := ih ha.sound (by rwa [ha.beside.size_managers])
        rw [hr]
        exact ⟨a :: done, .achieved ha hc⟩

/-! ## The report -/

theorem Carried.done_sublist (h : Carried m s as done t r) : done.Sublist as := by
  induction h with
  | nil => exact .refl _
  | failed _ _ ih => exact ih.cons _
  | achieved _ _ ih => exact ih.cons_cons _

theorem Carried.failedNames_sublist (h : Carried m s as done t r) :
    r.failedNames.Sublist (appliedNames as) := by
  induction h with
  | nil => exact .refl _
  | failed _ _ ih => exact ih.cons_cons _
  | @achieved _ _ _ a _ _ _ _ _ ih =>
      cases a with
      | apply d => exact ih.cons _
      | disable name => exact ih

theorem Carried.applied (h : Carried m s as done t r) : r.applied = appliedNames done := by
  induction h with
  | nil => rfl
  | failed _ _ ih => exact ih
  | @achieved _ _ _ a _ _ _ _ _ ih =>
      cases a with
      | apply d => exact congrArg (d.name :: ·) ih
      | disable name => exact ih

theorem Carried.disabled (h : Carried m s as done t r) : r.disabled = disabledNames as := by
  induction h with
  | nil => rfl
  | failed _ _ ih => exact ih
  | @achieved _ _ _ a _ _ _ _ _ ih =>
      cases a with
      | apply d => exact ih
      | disable name => exact congrArg (name :: ·) ih

/-- Where each name has one action, the report tells which ones did not fail. -/
theorem Carried.done_eq (h : Carried m s as done t r) (hn : (as.map (·.name)).Nodup) :
    done = r.done as := by
  induction h with
  | nil => rfl
  | @failed _ _ _ d e as done r _ _ ih =>
      -- the name has no other action, so leaving it out concerns this one only
      rw [List.map_cons, List.nodup_cons] at hn
      rw [ih hn.2]
      refine (List.filter_cons_of_neg ?_).trans (List.filter_congr ?_) |>.symm
      · simp [Reconciliation.append, Reconciliation.failedNames, Action.name]
      · intro b hb
        have hne : b.name ≠ d.name := fun hc => hn.1 (List.mem_map.2 ⟨b, hb, hc⟩)
        simp [Reconciliation.append, Reconciliation.failedNames, hne]
  | @achieved _ _ _ a as done r _ rest ih =>
      rw [List.map_cons, List.nodup_cons] at hn
      have hnot : a.name ∉ r.failedNames := fun hc =>
        hn.1 (appliedNames_subset as (rest.failedNames_sublist.subset hc))
      have hsame : (a.success.append r).failedNames = r.failedNames := by cases a <;> rfl
      rw [ih hn.2, Reconciliation.done, Reconciliation.done, hsame,
        List.filter_cons_of_pos (by simp [hnot])]

/-! ## What stays -/

theorem Carried.sound (h : Carried m s as done t r) (hs : s.Sound) : t.Sound := by
  induction h with
  | nil => exact hs
  | failed hset _ ih => exact ih (hs.congr hset)
  | achieved ha _ ih => exact ih ha.sound

theorem Carried.size_managers (h : Carried m s as done t r) :
    t.managers.size = s.managers.size := by
  induction h with
  | nil => rfl
  | failed hset _ ih => rw [ih, managers_congr hset]
  | achieved ha _ ih => rw [ih, ha.beside.size_managers]

theorem size_managers_reconcile (hs : s.Sound) (hm : m < s.managers.size)
    (old new : Definitions) : (s.reconcile m old new).1.managers.size = s.managers.size := by
  obtain ⟨done, hc⟩ := carried_carryOut hs hm (plan old new)
  exact hc.size_managers

/-- No name is given a logger or loses one but by an action that does not fail. -/
theorem Carried.find? (h : Carried m s as done t r) {k : ManagerId} {n : String}
    (hn : k ≠ m ∨ ∀ a ∈ done, a.name ≠ n) : (t.manager k).find? n = (s.manager k).find? n := by
  induction h with
  | nil => rfl
  | failed hset _ ih => rw [ih hn, manager_congr hset]
  | @achieved _ _ _ a _ _ _ ha _ ih =>
      rw [ih (hn.imp id fun h b hb => h b (List.mem_cons_of_mem a hb)), ha.beside.find k n]
      exact hn.imp id fun h hc => h a List.mem_cons_self hc.symm

/-- No logger is touched but by an action under its own name that does not fail, as long as it has
no appender in common with the loggers of the manager. -/
theorem Carried.untouched (h : Carried m s as done t r) (hs : s.Sound) {j : Nat}
    (hj : j < s.loggers.size) (hd : s.Apart m j)
    (hn : ∀ a ∈ done, (s.manager m).find? a.name ≠ some j) : Untouched s t j := by
  induction h with
  | nil s => exact .of_setup rfl j
  | failed hset _ ih =>
      refine (Untouched.of_setup hset j).trans (ih (hs.congr hset) ?_ (hd.congr hset) ?_)
      · rwa [loggers_congr hset]
      · rwa [manager_congr hset]
  | @achieved s t _ a _ done _ ha _ ih =>
      have hna := hn a List.mem_cons_self
      -- being apart from the loggers of the manager carries over to the state after the action
      refine (ha.untouched hs hj hna hd).trans
        (ih ha.sound ?_ (ha.apart hs hj hna hd) fun b hb => ?_)
      · exact Nat.lt_of_lt_of_le hj ha.beside.size_loggers
      · have hnb := hn b (List.mem_cons_of_mem a hb)
        by_cases hba : b.name = a.name
        · -- the name keeps its logger, or gets one that was not there before
          rw [hba]
          cases hf : (s.manager m).find? a.name with
          | some i =>
              rw [ha.beside.kept i hf]
              rwa [hf] at hna
          | none =>
              intro hc
              have hle := ha.beside.new hf j hc
              omega
        · rwa [ha.beside.find m b.name (.inr hba)]

/-! ## What actions make of a logger -/

theorem Carried.status? (h : Carried m s as done t r) (hs : s.Sound) (hu : s.Unshared m)
    (n : String) : t.status? m n = outcome s.times n done (s.status? m n) := by
  induction h with
  | nil => rfl
  | failed hset _ ih =>
      rw [ih (hs.congr hset) (hu.congr hset), status?_congr hset, times_congr hset]
  | @achieved s t _ a _ done _ ha _ ih =>
      rw [ih ha.sound (ha.unshared m hu), ha.beside.times, outcome_cons]
      by_cases hname : a.name = n
      · subst hname
        rw [if_pos rfl, ha.status]
      · rw [if_neg hname, ha.status?_of_ne hs hu (Ne.symm hname)]

/-- A pass over one manager leaves the loggers of another one alone. -/
theorem Carried.status?_of_ne (h : Carried m s as done t r) (hs : s.Sound) {l : ManagerId}
    (hl : l ≠ m) (hu : s.Unshared l) (n : String) : t.status? l n = s.status? l n := by
  refine status?_of_untouched (h.find? (.inl hl)) fun j hj => ?_
  refine h.untouched hs (hs.logger_lt hj) (hu.apart_of_find hj) fun a _ hc => ?_
  exact hl (hs.manager hj hc)

/-! ## What a reconciliation keeps -/

/-- A step keeps what reporting a record keeps, and opening a sink, obtaining loggers, switching them
off, and installing what has been built. -/
theorem perform_keeps_of_steps {Q : State → Prop} (hs : Q s)
    (hemit : ∀ (u : State) (r : Record), Q u → Q (u.emit r))
    (hopen : ∀ (u : State) (d : Destination), Q u → Q (u.openSink d).1)
    (hobtain : ∀ (u : State) (name : String), Q u → Q (u.obtain m name).1)
    (hdisable : ∀ (u : State) (i : LoggerId), Q u → Q ((u.setLevel i .off).clearAppenders i))
    (hinstall : ∀ (u : State) (i : LoggerId) (source : Option String) (level : Level)
      (xs : List Appender), Pattern.acceptable u.times source → (∀ x ∈ xs, x.Built u.times) →
      Q u → Q (u.install i (Pattern.given? u.times source) level xs))
    (a : Action) : Q (perform m (s, {}) a).1 := by
  cases a with
  | disable name => exact hemit _ _ (hdisable _ _ (hobtain s name hs))
  | apply d =>
      obtain ⟨record, hstate, -⟩ := perform_apply s m d
      rw [hstate]
      refine hemit _ _ ?_
      have hw := definedPattern_keeps hs hemit d.pattern
      obtain ⟨hok, hgiven⟩ := definedPattern_snd s d.pattern
      rw [apply_eq]
      refine andThen_fst hw fun p hp => ?_
      have hb := buildAll_keeps hw hemit hopen d.appenders
      refine andThen_fst hb fun xs hxs => ?_
      -- times are written as they were while all that was prepared
      have hprepared := (prepares_buildAll d.appenders (s.definedPattern d.pattern).1).setup
      have hfirst : (s.definedPattern d.pattern).1.times = s.times :=
        times_congr (writes_definedPattern s d.pattern).setup
      have htimes : (((s.definedPattern d.pattern).1.buildAll d.appenders).1.obtain m d.name).1.times
          = (s.definedPattern d.pattern).1.times :=
        (times_obtain _ m d.name).trans (times_congr hprepared)
      have hacceptable : Pattern.acceptable s.times d.pattern := by
        rw [← hok, hp]
        rfl
      have hnew := hinstall _
        (((s.definedPattern d.pattern).1.buildAll d.appenders).1.obtain m d.name).2 d.pattern
        (d.level.getD .debug) xs (by rwa [htimes, hfirst])
        (htimes ▸ built_of_buildAll hxs) (hobtain _ d.name hb)
      rw [htimes, hfirst] at hnew
      rw [hgiven p hp]
      exact hnew

/-- A reconciliation keeps what all of its steps keep. -/
theorem reconcile_keeps_of_steps {Q : State → Prop} (hs : Q s)
    (hemit : ∀ (u : State) (r : Record), Q u → Q (u.emit r))
    (hopen : ∀ (u : State) (d : Destination), Q u → Q (u.openSink d).1)
    (hobtain : ∀ (u : State) (name : String), Q u → Q (u.obtain m name).1)
    (hdisable : ∀ (u : State) (i : LoggerId), Q u → Q ((u.setLevel i .off).clearAppenders i))
    (hinstall : ∀ (u : State) (i : LoggerId) (source : Option String) (level : Level)
      (xs : List Appender), Pattern.acceptable u.times source → (∀ x ∈ xs, x.Built u.times) →
      Q u → Q (u.install i (Pattern.given? u.times source) level xs))
    (old new : Definitions) : Q (s.reconcile m old new).1 := by
  refine List.foldlRecOn (motive := fun done : State × Reconciliation => Q done.1) _ _ hs
    fun done hdone a _ => ?_
  rw [perform_eq]
  exact perform_keeps_of_steps hdone hemit hopen hobtain hdisable hinstall a

/-- A reconciliation keeps what does not depend on the files and what has been written, as long as
obtaining loggers keeps it, and switching them off, and installing what has been built. -/
theorem reconcile_keeps {Q : State → Prop} (hs : Q s)
    (hcongr : ∀ u v : State, v.setup = u.setup → Q u → Q v)
    (hobtain : ∀ (u : State) (name : String), Q u → Q (u.obtain m name).1)
    (hdisable : ∀ (u : State) (i : LoggerId), Q u → Q ((u.setLevel i .off).clearAppenders i))
    (hinstall : ∀ (u : State) (i : LoggerId) (source : Option String) (level : Level)
      (xs : List Appender), Pattern.acceptable u.times source → (∀ x ∈ xs, x.Built u.times) →
      Q u → Q (u.install i (Pattern.given? u.times source) level xs))
    (old new : Definitions) : Q (s.reconcile m old new).1 :=
  reconcile_keeps_of_steps hs (fun u r => hcongr u _ (setup_emit u r))
    (fun u d => hcongr u _ (prepares_openSink u { destination := d }).setup)
    hobtain hdisable hinstall old new

theorem times_perform (m : ManagerId) (s : State) (a : Action) :
    (perform m (s, {}) a).1.times = s.times := by
  refine perform_keeps_of_steps (Q := fun u => u.times = s.times) rfl ?_ ?_ ?_ ?_ ?_ a
  · exact fun u r hu => (times_congr (setup_emit u r)).trans hu
  · exact fun u d hu =>
      (times_congr (prepares_openSink u { destination := d }).setup).trans hu
  · exact fun u name hu => (times_obtain u m name).trans hu
  · exact fun u i hu => hu
  · intro u i source level xs _ _ hu
    exact install_keeps (Q := fun v => v.times = s.times) hu (fun _ _ hv => hv)
      (fun _ _ _ hv => hv) (fun _ _ _ hv => hv) _ level

theorem times_reconcile (s : State) (m : ManagerId) (old new : Definitions) :
    (s.reconcile m old new).1.times = s.times := by
  refine List.foldlRecOn (motive := fun done : State × Reconciliation => done.1.times = s.times) _ _
    rfl fun done hdone a _ => ?_
  rw [perform_eq]
  exact (times_perform m done.1 a).trans hdone

/-! ## Which actions fail -/

variable {P Q : String → Prop} {opens : String → Bool}

theorem failedNames_perform (hf : s.files.SettledOn P Q opens) (hsub : ∀ path, Q path → P path)
    (hs : s.Within P) (ha : a.Within Q) :
    (perform m (s, {}) a).2.failedNames
      = if a.buildable s.times opens then [] else [a.name] := by
  cases a with
  | apply d =>
      have hok := isOk_apply (m := m) hf hsub hs (d := d) ha
      obtain ⟨record, -, hreport⟩ := perform_apply s m d
      rw [Action.buildable, ← hok]
      rcases hreport with ⟨e, he, hr⟩ | ⟨hd, hr⟩
      · rw [hr, he]
        rfl
      · rw [hr, hd]
        rfl
  | disable name => rfl

/-- Where opening a file is settled by its path, whether an action fails has nothing to do with the
others. -/
theorem failedNames_carryOut_of_settledOn (hf : s.files.SettledOn P Q opens)
    (hsub : ∀ path, Q path → P path) (hs : s.Within P) (has : ∀ a ∈ as, a.Within Q) :
    (s.carryOut m as).2.failedNames = (as.filter (!·.buildable s.times opens)).map (·.name) := by
  induction as generalizing s with
  | nil => rfl
  | cons a as ih =>
      have ha := has a List.mem_cons_self
      obtain ⟨hwithin, hleads⟩ := leads_perform (m := m) hs (ha.mono hsub)
      have hrest := ih (hf.of_leads hleads) hwithin fun b hb => has b (List.mem_cons_of_mem a hb)
      rw [times_perform] at hrest
      have hsplit : (s.carryOut m (a :: as)).2.failedNames
          = (perform m (s, {}) a).2.failedNames
            ++ ((perform m (s, {}) a).1.carryOut m as).2.failedNames := by
        rw [carryOut_cons]
        exact List.map_append
      calc (s.carryOut m (a :: as)).2.failedNames
          = (perform m (s, {}) a).2.failedNames
              ++ ((perform m (s, {}) a).1.carryOut m as).2.failedNames := hsplit
        _ = (if a.buildable s.times opens then [] else [a.name])
              ++ (as.filter (!·.buildable s.times opens)).map (·.name) := by
            rw [hrest, failedNames_perform hf hsub hs ha]
        _ = ((a :: as).filter (!·.buildable s.times opens)).map (·.name) := by
            by_cases hb : a.buildable s.times opens
            · simp [hb]
            · simp [hb]

theorem failedNames_carryOut (hf : s.files.Settled P opens) (hs : s.Within P)
    (has : ∀ a ∈ as, a.Within P) :
    (s.carryOut m as).2.failedNames = (as.filter (!·.buildable s.times opens)).map (·.name) :=
  failedNames_carryOut_of_settledOn hf (fun _ h => h) hs has

end State

end ConfigLog.Logging
