import ConfigLog.Proofs.Logging.Pass

set_option autoImplicit false

/-! # States that operations lead to

Every state that the operations on managers, loggers and appenders lead to is sound
(`sound_of_reached`). A new manager has a root logger on standard output and shares nothing with the
others (`unshared_addManager`).
-/

namespace ConfigLog.Logging.State

variable {s t : State} {m : ManagerId}

/-! ## Changes that keep the managers -/

/-- A state stays sound as long as the managers stay, the loggers keep their names and fallbacks,
and what is attached is there. -/
theorem Sound.of_fields (hs : s.Sound) (hm : t.managers = s.managers)
    (hl : s.loggers.size ≤ t.loggers.size)
    (hn : ∀ j, j < s.loggers.size →
      (t.logger j).name = (s.logger j).name ∧ (t.logger j).fallback = (s.logger j).fallback)
    (ha : ∀ i (a : Nat), a ∈ (t.logger i).appenders → a < t.appenders.size) : t.Sound := by
  have hman : ∀ k, t.manager k = s.manager k := by
    intro k
    rw [State.manager, State.manager, hm]
  constructor
  case sorted => exact fun k => by rw [hman]; exact hs.sorted k
  case logger_lt =>
    intro k name i hf
    rw [hman] at hf
    exact Nat.lt_of_lt_of_le (hs.logger_lt hf) hl
  case name =>
    intro k name i hf
    rw [hman] at hf
    rw [(hn i (hs.logger_lt hf)).1, hs.name hf]
  case manager =>
    intro k l name name' i hf hf'
    rw [hman] at hf hf'
    exact hs.manager hf hf'
  case root =>
    intro k hk
    rw [hm] at hk
    rw [hman]
    exact hs.root k hk
  case fallback =>
    intro k name i hf
    rw [hman] at hf ⊢
    rw [(hn i (hs.logger_lt hf)).2, hs.fallback hf]
  case appender_lt => exact ha

theorem logger_modifyLogger (s : State) (i j : LoggerId) (f : Logger → Logger) :
    (s.modifyLogger i f).logger j = s.logger j ∨
      (s.modifyLogger i f).logger j = f (s.logger j) := by
  by_cases hij : i = j
  · subst hij
    by_cases hi : i < s.loggers.size
    · exact .inr (logger_modifyLogger_self s hi f)
    · refine .inl ?_
      simp [modifyLogger, State.logger, Array.getElem?_modify,
        Array.getElem?_eq_none (Nat.le_of_not_lt hi)]
  · exact .inl (logger_modifyLogger_of_ne s hij f)

theorem Sound.modifyLogger (hs : s.Sound) (i : LoggerId) {f : Logger → Logger}
    (hname : ∀ l, (f l).name = l.name) (hfallback : ∀ l, (f l).fallback = l.fallback)
    (hattached : ∀ l (a : Nat), a ∈ (f l).appenders → a ∈ l.appenders ∨ a < s.appenders.size) :
    (s.modifyLogger i f).Sound := by
  refine hs.of_fields rfl (Nat.le_of_eq Array.size_modify.symm) (fun j _ => ?_) fun j a ha => ?_
  · rcases logger_modifyLogger s i j f with h | h <;> rw [h]
    · exact ⟨rfl, rfl⟩
    · exact ⟨hname _, hfallback _⟩
  · rcases logger_modifyLogger s i j f with h | h <;> rw [h] at ha
    · exact hs.appender_lt j a ha
    · exact (hattached _ a ha).elim (hs.appender_lt j a) id

/-- Appenders may change in any way. -/
theorem Sound.of_appenders (hs : s.Sound) (hm : t.managers = s.managers)
    (hl : t.loggers = s.loggers) (ha : s.appenders.size ≤ t.appenders.size) : t.Sound := by
  have hlog : ∀ j, t.logger j = s.logger j := by
    intro j
    rw [State.logger, State.logger, hl]
  refine hs.of_fields hm (Nat.le_of_eq (by rw [hl])) (fun j _ => by simp [hlog]) fun j a h => ?_
  rw [hlog] at h
  exact Nat.lt_of_lt_of_le (hs.appender_lt j a h) ha

theorem Sound.modifyAppender (hs : s.Sound) (a : AppenderId) (f : Appender → Appender) :
    (s.modifyAppender a f).Sound :=
  hs.of_appenders rfl rfl (Nat.le_of_eq Array.size_modify.symm)

theorem Sound.addAppender (hs : s.Sound) (x : Appender) : (s.addAppender x).1.Sound :=
  hs.of_appenders rfl rfl (by simp [State.addAppender])

theorem logger_addLogger (s : State) (l : Logger) (i : LoggerId) :
    (s.addLogger l).1.logger i = if i = s.loggers.size then l else s.logger i := by
  by_cases hi : i = s.loggers.size
  · simp [addLogger, State.logger, hi]
  · simp [addLogger, State.logger, Array.getElem?_push, hi]

theorem Sound.addLogger (hs : s.Sound) (name : String) : (s.addLogger { name }).1.Sound := by
  refine hs.of_fields rfl (by simp [State.addLogger]) (fun j hj => ?_) fun j a ha => ?_
  · rw [logger_addLogger, if_neg (Nat.ne_of_lt hj)]
    exact ⟨rfl, rfl⟩
  · rw [logger_addLogger] at ha
    split at ha
    · cases ha
    · exact hs.appender_lt j a ha

/-! ## The operations on loggers and appenders -/

theorem Sound.setLevel (hs : s.Sound) (i : LoggerId) (level : Level) : (s.setLevel i level).Sound :=
  hs.modifyLogger i (fun _ => rfl) (fun _ => rfl) fun _ _ h => .inl h

theorem Sound.clearAppenders (hs : s.Sound) (i : LoggerId) : (s.clearAppenders i).Sound :=
  hs.modifyLogger i (fun _ => rfl) (fun _ => rfl) fun _ _ h => by cases h

theorem Sound.detach (hs : s.Sound) (i : LoggerId) (a : AppenderId) : (s.detach i a).1.Sound :=
  hs.modifyLogger i (fun _ => rfl) (fun _ => rfl) fun _ _ h => .inl (List.mem_filter.1 h).1

theorem Sound.attach (hs : s.Sound) (i : LoggerId) {a : Nat} (ha : a < s.appenders.size) :
    (s.attach i a).Sound := by
  refine (hs.modifyAppender a _).modifyLogger i (fun _ => rfl) (fun _ => rfl) fun l b hb => ?_
  rcases List.mem_append.1 hb with hb | hb
  · exact .inl hb
  · rw [List.mem_singleton.1 hb]
    exact .inr (by simpa [State.modifyAppender] using ha)

theorem Sound.adoptPattern (hs : s.Sound) (i : LoggerId) (p : Pattern) :
    (s.adoptPattern i p).Sound :=
  adoptPattern_keeps (hs.modifyLogger i (fun _ => rfl) (fun _ => rfl) fun _ _ h => .inl h)
    fun _ a hu => hu.modifyAppender a _

theorem Sound.setPattern (hs : s.Sound) (i : LoggerId) (p : Pattern) :
    (s.setPattern i p).1.Sound := by
  unfold State.setPattern
  split
  · exact hs.congr (setup_emit _ _)
  · exact hs.adoptPattern i p

theorem Sound.setAppenderPattern (hs : s.Sound) (a : AppenderId) (p : Pattern) :
    (s.setAppenderPattern a p).1.Sound := by
  unfold State.setAppenderPattern
  split
  · exact hs
  · split
    · exact hs
    · exact hs.modifyAppender a _

theorem Sound.newAppender (hs : s.Sound) (d : Destination) : (s.newAppender d).1.Sound := by
  rcases newAppender_cases s d with h | ⟨u, sink, h, -, hnew⟩
  · exact hs.congr h
  · rw [hnew]
    exact (hs.congr h).addAppender { sink }

/-! ## Reconciliation -/

theorem Sound.reconcile (hs : s.Sound) (hm : m < s.managers.size) (old new : Definitions) :
    (s.reconcile m old new).1.Sound := by
  obtain ⟨done, hc⟩ := carried_carryOut hs hm (plan old new)
  exact hc.sound hs

/-! ## New managers -/

/-- A manager that is not there lists no loggers. -/
theorem manager_of_le {k : Nat} (h : s.managers.size ≤ k) : s.manager k = default := by
  rw [State.manager, Array.getElem?_eq_none h]
  rfl

theorem lt_of_find {k : Nat} {name : String} {i : LoggerId}
    (h : (s.manager k).find? name = some i) : k < s.managers.size := by
  refine Nat.lt_of_not_le fun hle => ?_
  rw [manager_of_le hle] at h
  cases h

theorem sound_start (files : Files.Store) (times : TimeFormat) :
    ({ files, times } : State).Sound := by
  have hman : ∀ k, ({ files, times } : State).manager k = default := fun k =>
    manager_of_le (Nat.zero_le k)
  constructor
  case sorted => exact fun k => by rw [hman]; exact .nil
  case root => exact fun k hk => absurd hk (Nat.not_lt_zero k)
  case appender_lt => exact fun i a ha => by cases ha
  all_goals
    intros
    rename_i h
    exact absurd (lt_of_find h) (Nat.not_lt_zero _)

theorem times_addManager (s : State) : s.addManager.1.times = s.times := rfl

theorem manager_addManager_of_ne {k : ManagerId} (h : k ≠ s.managers.size) :
    s.addManager.1.manager k = s.manager k := by
  simp [addManager, State.addLogger, State.addAppender, State.manager, Array.getElem?_push, h]

theorem manager_addManager_self :
    s.addManager.1.manager s.managers.size
      = { root := s.loggers.size, loggers := [(rootName, s.loggers.size)] } := by
  simp [addManager, State.addLogger, State.addAppender, State.manager]

theorem logger_addManager_of_ne {j : LoggerId} (h : j ≠ s.loggers.size) :
    s.addManager.1.logger j = s.logger j := by
  simp [addManager, State.addLogger, State.addAppender, State.logger, Array.getElem?_push, h]

theorem logger_addManager_self :
    s.addManager.1.logger s.loggers.size
      = { name := rootName, appenders := [s.appenders.size] } := by
  simp [addManager, State.addLogger, State.addAppender, State.logger]

/-- What a state with a new manager finds: the new root, or what was there before. -/
theorem find_addManager_cases {k : ManagerId} {name : String} {i : LoggerId}
    (h : (s.addManager.1.manager k).find? name = some i) :
    (k = s.managers.size ∧ name = rootName ∧ i = s.loggers.size) ∨
      (k ≠ s.managers.size ∧ (s.manager k).find? name = some i) := by
  by_cases hk : k = s.managers.size
  · -- a new manager lists its root only
    rw [hk, manager_addManager_self] at h
    by_cases hname : name = rootName
    · subst hname
      rw [Manager.find?, List.lookup_cons_self] at h
      exact .inl ⟨hk, rfl, (Option.some.inj h).symm⟩
    · simp [Manager.find?, List.lookup_cons, beq_eq_false_iff_ne.2 hname] at h
  · rw [manager_addManager_of_ne hk] at h
    exact .inr ⟨hk, h⟩

theorem find_addManager_root :
    (s.addManager.1.manager s.managers.size).find? rootName = some s.loggers.size := by
  rw [manager_addManager_self]
  exact List.lookup_cons_self

/-- A new manager keeps a state sound. -/
theorem Sound.addManager (hs : s.Sound) : s.addManager.1.Sound := by
  have hsize : s.addManager.1.loggers.size = s.loggers.size + 1 := by
    simp [State.addManager, State.addLogger, State.addAppender]
  constructor
  case sorted =>
    intro k
    by_cases hk : k = s.managers.size
    · rw [hk, manager_addManager_self]
      exact List.pairwise_singleton _ _
    · rw [manager_addManager_of_ne hk]
      exact hs.sorted k
  case logger_lt =>
    intro k name i h
    rw [hsize]
    rcases find_addManager_cases h with ⟨-, -, rfl⟩ | ⟨-, h⟩
    · exact Nat.lt_succ_self _
    · exact Nat.lt_succ_of_lt (hs.logger_lt h)
  case name =>
    intro k name i h
    rcases find_addManager_cases h with ⟨-, rfl, rfl⟩ | ⟨-, h⟩
    · rw [logger_addManager_self]
    · rw [logger_addManager_of_ne (Nat.ne_of_lt (hs.logger_lt h)), hs.name h]
  case manager =>
    -- the number of the new root is one that no manager had before
    intro k l name name' i h h'
    rcases find_addManager_cases h with ⟨rfl, -, rfl⟩ | ⟨-, h⟩
    · rcases find_addManager_cases h' with ⟨rfl, -, -⟩ | ⟨-, h'⟩
      · rfl
      · exact absurd (hs.logger_lt h') (Nat.lt_irrefl _)
    · rcases find_addManager_cases h' with ⟨-, -, rfl⟩ | ⟨-, h'⟩
      · exact absurd (hs.logger_lt h) (Nat.lt_irrefl _)
      · exact hs.manager h h'
  case root =>
    intro k hk
    by_cases hnew : k = s.managers.size
    · rw [hnew, find_addManager_root, manager_addManager_self]
    · rw [manager_addManager_of_ne hnew]
      refine hs.root k ?_
      have hk' : k < s.managers.size + 1 := by
        simpa [State.addManager, State.addLogger, State.addAppender] using hk
      omega
  case fallback =>
    intro k name i h
    rcases find_addManager_cases h with ⟨-, rfl, rfl⟩ | ⟨hk, h⟩
    · rw [logger_addManager_self, if_pos rfl]
    · rw [logger_addManager_of_ne (Nat.ne_of_lt (hs.logger_lt h)), manager_addManager_of_ne hk,
        hs.fallback h]
  case appender_lt =>
    intro i a ha
    have hle : s.addManager.1.appenders.size = s.appenders.size + 1 := by
      simp [State.addManager, State.addLogger, State.addAppender]
    rw [hle]
    by_cases hi : i = s.loggers.size
    · rw [hi, logger_addManager_self] at ha
      rw [List.mem_singleton.1 ha]
      exact Nat.lt_succ_self _
    · rw [logger_addManager_of_ne hi] at ha
      exact Nat.lt_succ_of_lt (hs.appender_lt i a ha)

/-- A new manager shares no appenders. -/
theorem unshared_addManager (hs : s.Sound) : s.addManager.1.Unshared s.managers.size := by
  intro name i h j a hi hj
  rcases find_addManager_cases h with ⟨-, -, rfl⟩ | ⟨hk, -⟩
  · rw [logger_addManager_self] at hi
    by_cases hj' : j = s.loggers.size
    · exact hj'
    · rw [logger_addManager_of_ne hj'] at hj
      rw [List.mem_singleton.1 hi] at hj
      exact absurd (hs.appender_lt j _ hj) (Nat.lt_irrefl _)
  · exact absurd rfl hk

/-- What the loggers of a new manager go by: there is the root, and it prints all events. -/
theorem status?_addManager (name : String) :
    s.addManager.1.status? s.managers.size name =
      if name = rootName then some {
        level := .debug, pattern := .default
        appenders := [Appender.setting { sink := .stdout }] }
      else none := by
  by_cases hname : name = rootName
  · rw [if_pos hname, hname, status?, find_addManager_root, Option.map_some, statusOf,
      logger_addManager_self]
    simp [State.addManager, State.addLogger, State.addAppender, setting]
  · rw [if_neg hname, status?]
    cases h : (s.addManager.1.manager s.managers.size).find? name with
    | none => rfl
    | some i =>
        rcases find_addManager_cases h with ⟨-, hroot, -⟩ | ⟨hk, -⟩
        · exact absurd hroot hname
        · exact absurd rfl hk

/-! ## All operations -/

/-- The states that the operations lead to from one without managers, whatever else happens to the
files meanwhile. -/
inductive Reached : State → Prop
  | start (files : Files.Store) (times : TimeFormat) : Reached { files, times }
  /-- The files change by themselves, and time passes. -/
  | meanwhile {s : State} (h : Reached s) (files : Files.Store) (stamp : Stamp) :
      Reached { s with files, stamp }
  | facade {s : State} (h : Reached s) (facade : Option ManagerId) : Reached { s with facade }
  | addManager {s : State} (h : Reached s) : Reached s.addManager.1
  | addLogger {s : State} (h : Reached s) (name : String) : Reached (s.addLogger { name }).1
  | addAppender {s : State} (h : Reached s) (x : Appender) : Reached (s.addAppender x).1
  | newAppender {s : State} (h : Reached s) (d : Destination) : Reached (s.newAppender d).1
  | modifyAppender {s : State} (h : Reached s) (a : AppenderId) (f : Appender → Appender) :
      Reached (s.modifyAppender a f)
  | setAppenderPattern {s : State} (h : Reached s) (a : AppenderId) (p : Pattern) :
      Reached (s.setAppenderPattern a p).1
  | reopen {s : State} (h : Reached s) (a : AppenderId) : Reached (s.reopen a).1
  | obtain {s : State} {m : Nat} (h : Reached s) (hm : m < s.managers.size) (name : String) :
      Reached (s.obtain m name).1
  | setLevel {s : State} (h : Reached s) (i : LoggerId) (level : Level) :
      Reached (s.setLevel i level)
  | setPattern {s : State} (h : Reached s) (i : LoggerId) (p : Pattern) :
      Reached (s.setPattern i p).1
  | attach {s : State} {a : Nat} (h : Reached s) (i : LoggerId) (ha : a < s.appenders.size) :
      Reached (s.attach i a)
  | detach {s : State} (h : Reached s) (i : LoggerId) (a : AppenderId) : Reached (s.detach i a).1
  | clearAppenders {s : State} (h : Reached s) (i : LoggerId) : Reached (s.clearAppenders i)
  | emit {s : State} (h : Reached s) (r : Record) : Reached (s.emit r)
  | log {s : State} (h : Reached s) (i : LoggerId) (level : Level) (e : Event) :
      Reached (s.log i level e)
  | reconcile {s : State} {m : Nat} (h : Reached s) (hm : m < s.managers.size)
      (old new : Definitions) : Reached (s.reconcile m old new).1

/-- All that the operations lead to is sound. -/
theorem sound_of_reached (h : Reached s) : s.Sound := by
  induction h with
  | start files times => exact sound_start files times
  | meanwhile _ files stamp ih => exact ih.of_appenders rfl rfl (Nat.le_refl _)
  | facade _ f ih => exact ih.of_appenders rfl rfl (Nat.le_refl _)
  | addManager _ ih => exact ih.addManager
  | addLogger _ name ih => exact ih.addLogger name
  | addAppender _ x ih => exact ih.addAppender x
  | newAppender _ d ih => exact ih.newAppender d
  | modifyAppender _ a f ih => exact ih.modifyAppender a f
  | setAppenderPattern _ a p ih => exact ih.setAppenderPattern a p
  | reopen _ a ih => exact ih.congr (setup_reopen _ a)
  | obtain _ hm name ih => exact ih.obtain hm name
  | setLevel _ i level ih => exact ih.setLevel i level
  | setPattern _ i p ih => exact ih.setPattern i p
  | attach _ i ha ih => exact ih.attach i ha
  | detach _ i a ih => exact ih.detach i a
  | clearAppenders _ i ih => exact ih.clearAppenders i
  | emit _ r ih => exact ih.congr (setup_emit _ r)
  | log _ i level e ih => exact ih.congr (setup_log _ i level e)
  | reconcile _ hm old new ih => exact ih.reconcile hm old new

end ConfigLog.Logging.State
