import ConfigLog.Proofs.Logging.Reach

set_option autoImplicit false

/-! # Courses of passes

A `Course` is what can happen to a logging state while the loggers of a manager are changed by
passes of reconciliation only. What a logger goes by in the end is the outcome of the actions of all
passes that did not fail (`Course.status?`), and so comes from the last of them and from the last
pattern that was given under its name (`Course.last_action`).
-/

namespace ConfigLog.Logging

/-! ## Passes -/

/-- A reconciliation that took place. -/
structure Pass where
  old : Definitions
  new : Definitions
  report : Reconciliation

/-- The actions of a pass that did not fail. -/
def Pass.done (p : Pass) : List Action := p.report.done (plan p.old p.new)

/-- The actions of passes that did not fail, in order. -/
def allDone (ps : List Pass) : List Action := ps.flatMap Pass.done

theorem allDone_append (ps qs : List Pass) : allDone (ps ++ qs) = allDone ps ++ allDone qs :=
  List.flatMap_append

theorem allDone_singleton (p : Pass) : allDone [p] = p.done :=
  List.append_nil _

/-! ## The last action of a name -/

/-- The patterns that actions have given under a name, in order. -/
def givenPatterns (times : TimeFormat) (name : String) (done : List Action) : List Pattern :=
  done.filterMap fun
    | .apply d => if d.name = name then Pattern.given? times d.pattern else none
    | .disable _ => none

/-- The last pattern that was given under a name, or else the one from before. -/
def lastPattern (times : TimeFormat) (name : String) (done : List Action) (p : Pattern) : Pattern :=
  (givenPatterns times name done).getLast?.getD p

section

variable (times : TimeFormat)

theorem lastPattern_cons (name : String) (a : Action) (done : List Action) (p : Pattern) :
    lastPattern times name (a :: done) p
      = lastPattern times name done (if a.name = name then a.pattern times p else p) := by
  cases a with
  | disable n =>
      have hskip :
          givenPatterns times name (.disable n :: done) = givenPatterns times name done := rfl
      rw [lastPattern, lastPattern, hskip, Action.pattern, ite_self]
  | apply d =>
      by_cases hname : d.name = name
      · cases hp : Pattern.given? times d.pattern with
        | none =>
            have hskip : givenPatterns times name (.apply d :: done)
                = givenPatterns times name done := by
              simp [givenPatterns, hname, hp]
            simp only [lastPattern, hskip, Action.pattern, hp, Option.getD_none, ite_self]
        | some q =>
            have hpush : givenPatterns times name (.apply d :: done)
                = q :: givenPatterns times name done := by
              simp [givenPatterns, hname, hp]
            simp only [lastPattern, hpush, Action.name, hname, if_true, Action.pattern, hp,
              Option.getD_some, List.getLast?_cons]
      · have hskip : givenPatterns times name (.apply d :: done)
            = givenPatterns times name done := by
          simp [givenPatterns, hname]
        simp only [lastPattern, hskip, Action.name, hname, if_false]

theorem lastPattern_append (name : String) (as bs : List Action) (p : Pattern) :
    lastPattern times name (as ++ bs) p
      = lastPattern times name bs (lastPattern times name as p) := by
  induction as generalizing p with
  | nil => rfl
  | cons a as ih => rw [List.cons_append, lastPattern_cons, lastPattern_cons, ih]

variable {times}

theorem lastPattern_of_forall_ne {name : String} {done : List Action}
    (h : ∀ a ∈ done, a.name ≠ name) (p : Pattern) : lastPattern times name done p = p := by
  induction done with
  | nil => rfl
  | cons a done ih =>
      rw [lastPattern_cons, if_neg (h a List.mem_cons_self)]
      exact ih fun b hb => h b (List.mem_cons_of_mem a hb)

/-- A pattern that the last action on a name gives is the last one. -/
theorem lastPattern_of_given {d : Definition} {as bs : List Action} {q : Pattern}
    (hq : Pattern.given? times d.pattern = some q) (hbs : ∀ b ∈ bs, b.name ≠ d.name) (p : Pattern) :
    lastPattern times d.name (as ++ .apply d :: bs) p = q := by
  have hname : (Action.apply d).name = d.name := rfl
  rw [lastPattern_append, lastPattern_cons, if_pos hname, lastPattern_of_forall_ne hbs,
    Action.pattern, hq, Option.getD_some]

theorem pattern_status (a : Action) (times : TimeFormat) (p : Pattern) :
    (a.status times p).pattern = p := by
  cases a <;> rfl

/-- The pattern of a logger is the last one that was given. -/
theorem pattern_outcome (times : TimeFormat) (name : String) (done : List Action)
    (before : Option Status) : (outcome times name done before).elim .default (·.pattern)
      = lastPattern times name done (before.elim .default (·.pattern)) := by
  induction done generalizing before with
  | nil => rfl
  | cons a done ih =>
      rw [outcome_cons, ih, lastPattern_cons]
      by_cases hname : a.name = name
      · rw [if_pos hname, if_pos hname, Option.elim_some, Action.result, pattern_status]
      · rw [if_neg hname, if_neg hname]

/-- The last action of a name decides what its logger goes by, up to the pattern. -/
theorem outcome_last {name : String} {as bs : List Action} {a : Action} (ha : a.name = name)
    (hbs : ∀ b ∈ bs, b.name ≠ name) (before : Option Status) :
    outcome times name (as ++ a :: bs) before
      = some (a.status times
          (lastPattern times name (as ++ a :: bs) (before.elim .default (·.pattern)))) := by
  have hout : outcome times name (as ++ a :: bs) before
      = some (a.result times (outcome times name as before)) := by
    rw [outcome_append, outcome_cons, if_pos ha, outcome_of_forall_ne hbs]
  have hp := pattern_outcome times name (as ++ a :: bs) before
  rw [hout, Option.elim_some, Action.result, pattern_status] at hp
  rw [hout, ← hp, Action.result]

end

namespace State

variable {s t u : State} {m : Nat}

/-! ## Managers in good order -/

/-- A manager of a sound state none of whose appenders is attached twice. -/
structure Intact (m : Nat) (s : State) : Prop where
  sound : s.Sound
  lt : m < s.managers.size
  unshared : s.Unshared m
  nodup : ∀ name i, (s.manager m).find? name = some i → (s.logger i).appenders.Nodup

theorem Intact.congr (h : t.setup = s.setup) (hs : s.Intact m) : t.Intact m where
  sound := hs.sound.congr h
  lt := by rw [managers_congr h]; exact hs.lt
  unshared := hs.unshared.congr h
  nodup name i hf := by
    rw [manager_congr h] at hf
    rw [logger_congr h]
    exact hs.nodup name i hf

theorem Intact.enrol (hs : s.Intact m) {name : String} (hn : (s.manager m).find? name = none) :
    (s.enrol m name).Intact m where
  sound := hs.sound.enrol hs.lt hn
  lt := by simpa [State.enrol, register, addLogger] using hs.lt
  unshared := hs.unshared.enrol hs.lt
  nodup other i hf := by
    rcases logger_enrol_cases hs.sound hs.lt hf with hnil | ⟨hf, hlog⟩
    · rw [hnil]
      exact .nil
    · rw [hlog]
      exact hs.nodup other i hf

theorem intact_addManager (hs : s.Sound) : s.addManager.1.Intact s.managers.size where
  sound := hs.addManager
  lt := by simp [addManager, addLogger, addAppender]
  unshared := unshared_addManager hs
  nodup name i hf := by
    rcases find_addManager_cases hf with ⟨-, -, rfl⟩ | ⟨hne, -⟩
    · rw [logger_addManager_self]
      exact List.nodup_singleton _
    · exact absurd rfl hne

theorem Achieved.nodup_all {k : Nat} {a : Action} (hs : s.Intact m) (h : Achieved k a s t)
    {name : String} {i : LoggerId} (hf : (t.manager m).find? name = some i) :
    (t.logger i).appenders.Nodup := by
  by_cases ho : m = k ∧ name = a.name
  · obtain ⟨rfl, rfl⟩ := ho
    exact h.nodup i hf
  · rw [h.beside.find m name (Decidable.not_and_iff_or_not.1 ho)] at hf
    have hne : (s.manager k).find? a.name ≠ some i := by
      intro hc
      exact ho ⟨hs.sound.manager hf hc, hs.sound.name_inj hf hc⟩
    rw [h.beside.logger i (hs.sound.logger_lt hf) hne]
    exact hs.nodup name i hf

theorem Carried.intact {k : Nat} {as done : List Action} {r : Reconciliation}
    (h : Carried k s as done t r) (hs : s.Intact m) : t.Intact m := by
  induction h with
  | nil => exact hs
  | failed hset _ ih => exact ih (hs.congr hset)
  | achieved ha _ ih =>
      refine ih ⟨ha.sound, ?_, ha.unshared m hs.unshared, fun name i hf => ?_⟩
      · rw [ha.beside.size_managers]
        exact hs.lt
      · exact ha.nodup_all hs hf

/-! ## Courses -/

/-- What happens to a state while the loggers of a manager are changed by passes only, with the
passes in order. -/
inductive Course (m : Nat) : State → List Pass → State → Prop
  | start (s : State) : Course m s [] s
  | pass {s t : State} {ps : List Pass} (h : Course m s ps t) (old new : Definitions) :
      Course m s (ps ++ [⟨old, new, (t.reconcile m old new).2⟩]) (t.reconcile m old new).1
  /-- A pass over another manager. -/
  | other {s t : State} {ps : List Pass} {k : Nat} (h : Course m s ps t) (hk : k ≠ m)
      (hlt : k < t.managers.size) (old new : Definitions) : Course m s ps (t.reconcile k old new).1
  | emit {s t : State} {ps : List Pass} (h : Course m s ps t) (r : Record) :
      Course m s ps (t.emit r)
  | log {s t : State} {ps : List Pass} (h : Course m s ps t) (i : LoggerId) (level : Level)
      (e : Event) : Course m s ps (t.log i level e)
  /-- The files change by themselves, and time passes. -/
  | meanwhile {s t : State} {ps : List Pass} (h : Course m s ps t) (files : Files.Store)
      (stamp : Stamp) : Course m s ps { t with files, stamp }

theorem Course.trans {ps qs : List Pass} (h : Course m s ps t) (h' : Course m t qs u) :
    Course m s (ps ++ qs) u := by
  induction h' with
  | start => rwa [List.append_nil]
  | pass _ old new ih =>
      rw [← List.append_assoc]
      exact .pass ih old new
  | other _ hk hlt old new ih => exact .other ih hk hlt old new
  | emit _ r ih => exact .emit ih r
  | log _ i level e ih => exact .log ih i level e
  | meanwhile _ files stamp ih => exact .meanwhile ih files stamp

theorem Course.intact {ps : List Pass} (h : Course m s ps t) (hs : s.Intact m) : t.Intact m := by
  induction h with
  | start => exact hs
  | @pass t _ _ old new ih =>
      obtain ⟨done, hc⟩ := carried_carryOut ih.sound ih.lt (plan old new)
      exact hc.intact ih
  | @other t _ k _ _ hlt old new ih =>
      obtain ⟨done, hc⟩ := carried_carryOut ih.sound hlt (plan old new)
      exact hc.intact ih
  | emit _ r ih => exact ih.congr (setup_emit _ r)
  | log _ i level e ih => exact ih.congr (setup_log _ i level e)
  | meanwhile _ files stamp ih =>
      exact ⟨ih.sound.of_appenders rfl rfl (Nat.le_refl _), ih.lt, ih.unshared, ih.nodup⟩

theorem Course.size_managers {ps : List Pass} (h : Course m s ps t) (hs : s.Intact m) :
    t.managers.size = s.managers.size := by
  induction h with
  | start => rfl
  | @pass t _ h old new ih =>
      obtain ⟨done, hc⟩ := carried_carryOut (h.intact hs).sound (h.intact hs).lt (plan old new)
      rw [← ih, ← hc.size_managers]
      rfl
  | @other t _ k h _ hlt old new ih =>
      obtain ⟨done, hc⟩ := carried_carryOut (h.intact hs).sound hlt (plan old new)
      rw [← ih, ← hc.size_managers]
      rfl
  | emit _ r ih => rw [managers_congr (setup_emit _ r), ih]
  | log _ i level e ih => rw [managers_congr (setup_log _ i level e), ih]
  | meanwhile _ _ _ ih => exact ih

theorem Course.times {ps : List Pass} (h : Course m s ps t) : t.times = s.times := by
  induction h with
  | start => rfl
  | pass _ old new ih => exact (times_reconcile _ m old new).trans ih
  | other _ _ _ old new ih => exact (times_reconcile _ _ old new).trans ih
  | emit _ r ih => exact (times_congr (setup_emit _ r)).trans ih
  | log _ i level e ih => exact (times_congr (setup_log _ i level e)).trans ih
  | meanwhile _ _ _ ih => exact ih

/-- What a logger goes by is the outcome of the actions that did not fail. -/
theorem Course.status? {ps : List Pass} (h : Course m s ps t) (hs : s.Intact m) (name : String) :
    t.status? m name = outcome s.times name (allDone ps) (s.status? m name) := by
  induction h with
  | start => rfl
  | @pass t ps h old new ih =>
      have ht := h.intact hs
      obtain ⟨done, hc⟩ := carried_carryOut ht.sound ht.lt (plan old new)
      -- the report tells which actions did not fail
      have hdone : done = Pass.done ⟨old, new, (t.reconcile m old new).2⟩ :=
        hc.done_eq (nodup_plan old new)
      calc (t.reconcile m old new).1.status? m name
          = outcome t.times name done (t.status? m name) := hc.status? ht.sound ht.unshared name
        _ = outcome s.times name done (outcome s.times name (allDone ps) (s.status? m name)) := by
            rw [ih, h.times]
        _ = outcome s.times name (allDone (ps ++ [⟨old, new, (t.reconcile m old new).2⟩]))
              (s.status? m name) := by
            rw [allDone_append, outcome_append, allDone_singleton, hdone]
  | @other t _ k h hk hlt old new ih =>
      have ht := h.intact hs
      obtain ⟨done, hc⟩ := carried_carryOut ht.sound hlt (plan old new)
      rw [← ih]
      exact hc.status?_of_ne ht.sound (Ne.symm hk) ht.unshared name
  | emit _ r ih => rw [status?_congr (setup_emit _ r), ih]
  | log _ i level e ih => rw [status?_congr (setup_log _ i level e), ih]
  | meanwhile _ _ _ ih => exact ih

/-- The last action on a name that did not fail decides what its logger goes by. -/
theorem Course.last_action {ps : List Pass} (h : Course m s ps t) (hs : s.Intact m)
    {as bs : List Action} {a : Action} (hdone : allDone ps = as ++ a :: bs)
    (hbs : ∀ b ∈ bs, b.name ≠ a.name) :
    t.status? m a.name = some (a.status s.times (lastPattern s.times a.name (allDone ps)
      ((s.status? m a.name).elim .default (·.pattern)))) := by
  rw [h.status? hs, hdone]
  exact outcome_last rfl hbs _

end State

end ConfigLog.Logging
