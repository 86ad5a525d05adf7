import ConfigLog.Proofs.Logging.Reach

set_option autoImplicit false

/-! # Reconciliation is atomic

What a reconciliation makes of a logger depends on its own action and its own state alone, a
definition that fails changes nothing, and no logger without an action is touched
(`reconcile_atomic`).
-/

namespace ConfigLog.Logging

/-! ## What a report covers -/

/-- A report tells of each action of a list once, with the names in the order of the actions. -/
structure Reconciliation.Covers (r : Reconciliation) (as : List Action) : Prop where
  /-- No name has two actions. -/
  nodup : (as.map (·.name)).Nodup
  disabled : r.disabled = disabledNames as
  failed : r.failedNames.Sublist (appliedNames as)
  applied : r.applied = (appliedNames as).filter fun name => !r.failedNames.contains name

theorem appliedNames_done (r : Reconciliation) (as : List Action) :
    appliedNames (r.done as) = (appliedNames as).filter fun n => !r.failedNames.contains n := by
  induction as with
  | nil => rfl
  | cons a as ih =>
      cases a with
      | apply d =>
          -- a definition that failed is left out on both sides
          by_cases hd : d.name ∈ r.failedNames
          · have hl : r.done (.apply d :: as) = r.done as :=
              List.filter_cons_of_neg (by simp [Action.name, hd])
            have hr : appliedNames (.apply d :: as) = d.name :: appliedNames as := rfl
            rw [hl, ih, hr, List.filter_cons_of_neg (by simp [hd])]
          · have hl : r.done (.apply d :: as) = .apply d :: r.done as :=
              List.filter_cons_of_pos (by simp [Action.name, hd])
            have hr : ∀ as, appliedNames (.apply d :: as) = d.name :: appliedNames as :=
              fun _ => rfl
            rw [hl, hr, ih, hr, List.filter_cons_of_pos (by simp [hd])]
      | disable name =>
          -- names that are disabled are not counted, whether they are left out or not
          have hr : ∀ as, appliedNames (.disable name :: as) = appliedNames as := fun _ => rfl
          rw [hr, ← ih]
          by_cases hn : name ∈ r.failedNames
          · have hl : r.done (.disable name :: as) = r.done as :=
              List.filter_cons_of_neg (by simp [Action.name, hn])
            rw [hl]
          · have hl : r.done (.disable name :: as) = .disable name :: r.done as :=
              List.filter_cons_of_pos (by simp [Action.name, hn])
            rw [hl, hr]

namespace State

variable {s : State} {m : Nat} {as done : List Action} {t : State} {r : Reconciliation}

theorem Carried.covers (h : Carried m s as done t r) (hn : (as.map (·.name)).Nodup) :
    r.Covers as where
  nodup := hn
  disabled := h.disabled
  failed := h.failedNames_sublist
  applied := by rw [h.applied, h.done_eq hn, appliedNames_done]

/-- The names of the actions that did not fail are those that the report lists as such. -/
theorem Carried.ne_of_not_mem (h : Carried m s as done t r) {name : String}
    (happlied : name ∉ r.applied) (hdisabled : name ∉ r.disabled) : ∀ a ∈ done, a.name ≠ name := by
  rintro a ha rfl
  cases a with
  | apply d =>
      rw [h.applied] at happlied
      exact happlied (List.mem_filterMap.2 ⟨.apply d, ha, rfl⟩)
  | disable name =>
      rw [h.disabled] at hdisabled
      exact hdisabled (List.mem_filterMap.2 ⟨.disable name, h.done_sublist.subset ha, rfl⟩)

/-! ## Atomicity -/

/-- A reconciliation does each of its actions completely or not at all, and independently of the
others. Its report covers the plan. Only names that it lists as applied or disabled can lead to
something new, and no other logger is touched. What it makes of a name with an action that does not
fail comes from that action and from what the logger of the name was before. Where opening a file is
settled by its path, the actions that fail are those that are not buildable by themselves. -/
theorem reconcile_atomic (hs : s.Sound) (hm : m < s.managers.size) (hu : s.Unshared m)
    (old new : Definitions) :
    (s.reconcile m old new).2.Covers (plan old new) ∧
    (∀ k name,
      k ≠ m ∨ name ∉ (s.reconcile m old new).2.applied ∧ name ∉ (s.reconcile m old new).2.disabled →
      ((s.reconcile m old new).1.manager k).find? name = (s.manager k).find? name) ∧
    (∀ j : Nat, j < s.loggers.size →
      (∀ name, (s.manager m).find? name = some j →
        name ∉ (s.reconcile m old new).2.applied ∧ name ∉ (s.reconcile m old new).2.disabled) →
      Untouched s (s.reconcile m old new).1 j) ∧
    (∀ a ∈ plan old new, a.name ∉ (s.reconcile m old new).2.failedNames →
      (s.reconcile m old new).1.status? m a.name = some (a.result s.times (s.status? m a.name))) ∧
    (∀ (P : String → Prop) (opens : String → Bool), s.files.Settled P opens → s.Within P →
      (∀ d ∈ new.toList, d.Within P) →
      (s.reconcile m old new).2.failedNames
        = ((plan old new).filter (!·.buildable s.times opens)).map (·.name)) := by
  obtain ⟨done, hc⟩ := carried_carryOut hs hm (plan old new)
  rw [← reconcile_eq] at hc
  have hdone := hc.done_eq (nodup_plan old new)
  refine ⟨hc.covers (nodup_plan old new), ?_, ?_, ?_, ?_⟩
  · -- who has a logger
    intro k name h
    exact hc.find? (h.imp id fun h => hc.ne_of_not_mem h.1 h.2)
  · -- the loggers without an action
    intro j hj h
    refine hc.untouched hs hj (hu.apart j) fun a ha hfind => ?_
    obtain ⟨happlied, hdisabled⟩ := h a.name hfind
    exact hc.ne_of_not_mem happlied hdisabled a ha rfl
  · -- the loggers with an action that did not fail
    intro a ha hnot
    have hmem : a ∈ done := by
      rw [hdone]
      exact List.mem_filter.2 ⟨ha, by simpa using hnot⟩
    rw [hc.status? hs hu]
    exact outcome_of_mem ((nodup_plan old new).sublist (hc.done_sublist.map _)) hmem _
  · -- the actions that fail
    intro P opens hf hp hd
    refine failedNames_carryOut hf hp fun a ha => ?_
    cases a with
    | apply d => exact hd d (mem_plan_apply.1 ha).1
    | disable name => trivial

/-- A state with one manager, where the file `down.log` cannot be opened. -/
def withoutDownLog : State :=
  (State.addManager { files := { Files.Store.start [] with
    refuses := fun _ path => path == "down.log" } }).1

/-- A definition that asks for the file `down.log`. -/
def down : Definition := { name := "down", appenders := [{ destination := .file "down.log" }] }

/-- A definition that asks for no file. -/
def up : Definition :=
  { name := "up", level := some .info, appenders := [{ destination := .stdout }] }

theorem reconcile_down_up :
    (withoutDownLog.reconcile 0 .empty (.ofList [down, up])).2.failedNames = ["down"] ∧
    (withoutDownLog.reconcile 0 .empty (.ofList [down, up])).2.applied = ["up"] ∧
    ((withoutDownLog.reconcile 0 .empty (.ofList [down, up])).1.manager 0).find? "down" = none ∧
    (withoutDownLog.reconcile 0 .empty (.ofList [down, up])).1.status? 0 "up" = some {
      level := .info, pattern := .default
      appenders := [{
        destination := .stdout, level := .debug, pattern := .default, own := false }] } ∧
    Untouched withoutDownLog (withoutDownLog.reconcile 0 .empty (.ofList [down, up])).1 0 := by
  have hsound : withoutDownLog.Sound := (sound_start _ _).addManager
  have hplan : plan .empty (.ofList [down, up]) = [.apply down, .apply up] := by decide
  have hlist : (Definitions.ofList [down, up]).toList = [down, up] := by decide
  have hunshared : withoutDownLog.Unshared 0 := unshared_addManager (sound_start _ _)
  obtain ⟨hcovers, hfind, huntouched, hstatus, hfails⟩ := reconcile_atomic hsound
    (by decide) hunshared .empty (.ofList [down, up])
  rw [hplan] at hcovers hstatus hfails
  -- the one path that is named is always turned down
  have hsettled : withoutDownLog.files.Settled (· = "down.log") fun _ => false := by
    refine Files.Store.settled_of_refuses fun n path h => ?_
    rw [h]
    rfl
  have hwithin : withoutDownLog.Within (· = "down.log") := by
    rintro (_ | a) path h <;> cases h
  have hnames : ∀ d ∈ (Definitions.ofList [down, up]).toList, d.Within (· = "down.log") := by
    rw [hlist]
    intro d hd a ha path h
    rcases List.mem_pair.1 hd with rfl | rfl
    · rw [List.mem_singleton.1 ha] at h
      exact (Destination.file.inj h).symm
    · rw [List.mem_singleton.1 ha] at h
      cases h
  have hfailed :
      (withoutDownLog.reconcile 0 .empty (.ofList [down, up])).2.failedNames = ["down"] :=
    (hfails _ _ hsettled hwithin hnames).trans (by decide)
  have happlied : (withoutDownLog.reconcile 0 .empty (.ofList [down, up])).2.applied = ["up"] := by
    rw [hcovers.applied, hfailed]
    decide
  have hdisabled : (withoutDownLog.reconcile 0 .empty (.ofList [down, up])).2.disabled = [] :=
    hcovers.disabled
  refine ⟨hfailed, happlied, ?_, ?_, ?_⟩
  · rw [hfind 0 "down" (.inr (by rw [happlied, hdisabled]; decide))]
    decide
  · refine (hstatus (.apply up) (by simp) (by rw [hfailed]; decide)).trans ?_
    decide
  · refine huntouched 0 (by decide) fun name hname => ?_
    have hroot : name = rootName := hsound.name_inj hname (hsound.root 0 (by decide))
    rw [hroot, happlied, hdisabled]
    decide

end State

end ConfigLog.Logging
