import ConfigLog.Proofs.Logging.Local

set_option autoImplicit false

/-! # Sound states

In a sound state every number leads to something, each manager lists its loggers under their own
names, and no logger is in two managers. New managers (`Sound.addManager`), loggers obtained by name
(`Sound.obtain`) and changes of one logger (`Sound.of_local`) keep a state sound.
`Beside m name s t` is the frame of an operation on one name of a manager: what the name leads to
may have changed, all else is as it was.
-/

namespace ConfigLog.Logging.State

variable {s t : State} {m : ManagerId} {name : String}

/-! ## Soundness -/

/-- The numbers of a state lead to something, and managers and loggers fit together. -/
structure Sound (s : State) : Prop where
  sorted : ∀ k, (s.manager k).loggers.Pairwise fun d e => d.1 < e.1
  logger_lt : ∀ {k name} {i : Nat}, (s.manager k).find? name = some i → i < s.loggers.size
  name : ∀ {k name i}, (s.manager k).find? name = some i → (s.logger i).name = name
  /-- A logger is in one manager only. -/
  manager : ∀ {k l name name' i}, (s.manager k).find? name = some i →
    (s.manager l).find? name' = some i → k = l
  root : ∀ k : Nat, k < s.managers.size →
    (s.manager k).find? rootName = some (s.manager k).root
  fallback : ∀ {k name i}, (s.manager k).find? name = some i →
    (s.logger i).fallback = if name = rootName then none else some (s.manager k).root
  appender_lt : ∀ i (a : Nat), a ∈ (s.logger i).appenders → a < s.appenders.size

theorem Sound.congr (h : t.setup = s.setup) (hs : s.Sound) : t.Sound where
  sorted k := by rw [manager_congr h]; exact hs.sorted k
  logger_lt hf := by
    rw [manager_congr h] at hf
    rw [loggers_congr h]
    exact hs.logger_lt hf
  name hf := by
    rw [manager_congr h] at hf
    rw [logger_congr h, hs.name hf]
  manager hf hf' := by
    rw [manager_congr h] at hf hf'
    exact hs.manager hf hf'
  root k hk := by
    rw [managers_congr h] at hk
    rw [manager_congr h]
    exact hs.root k hk
  fallback hf := by
    rw [manager_congr h] at hf ⊢
    rw [logger_congr h, hs.fallback hf]
  appender_lt i a ha := by
    rw [logger_congr h] at ha
    rw [size_appenders_congr h]
    exact hs.appender_lt i a ha

/-- A manager lists a logger under one name. -/
theorem Sound.name_inj (hs : s.Sound) {k l : ManagerId} {name name' : String} {i : LoggerId}
    (h : (s.manager k).find? name = some i) (h' : (s.manager l).find? name' = some i) :
    name = name' :=
  (hs.name h).symm.trans (hs.name h')

theorem Sound.of_local {i : LoggerId} (hs : s.Sound) (h : Local i s t) : t.Sound where
  sorted k := by rw [h.manager]; exact hs.sorted k
  logger_lt hf := by
    rw [h.manager] at hf
    rw [h.size_loggers]
    exact hs.logger_lt hf
  name {k name j} hf := by
    rw [h.manager] at hf
    by_cases hj : j = i
    · rw [hj, h.name, ← hj, hs.name hf]
    · rw [h.logger j hj, hs.name hf]
  manager hf hf' := by
    rw [h.manager] at hf hf'
    exact hs.manager hf hf'
  root k hk := by
    rw [h.managers] at hk
    rw [h.manager]
    exact hs.root k hk
  fallback {k name j} hf := by
    rw [h.manager] at hf ⊢
    by_cases hj : j = i
    · rw [hj, h.fallback, ← hj, hs.fallback hf]
    · rw [h.logger j hj, hs.fallback hf]
  appender_lt j a ha := by
    by_cases hj : j = i
    · subst hj
      rcases h.attached a ha with ha | ha
      · exact Nat.lt_of_lt_of_le (hs.appender_lt j a ha) h.size_appenders
      · exact ha.2
    · rw [h.logger j hj] at ha
      exact Nat.lt_of_lt_of_le (hs.appender_lt j a ha) h.size_appenders

/-! ## Obtaining loggers -/

/-- The state with a new logger under a name that a manager has none of. -/
def enrol (s : State) (m : ManagerId) (name : String) : State :=
  (s.addLogger { name, fallback := some (s.manager m).root }).1.register m name s.loggers.size

theorem obtain_of_find {i : LoggerId} (h : (s.manager m).find? name = some i) :
    s.obtain m name = (s, i) := by
  rw [obtain, h]

theorem obtain_of_find_none (h : (s.manager m).find? name = none) :
    s.obtain m name = ((s.enrol m name).emit (createdRecord name), s.loggers.size) := by
  rw [obtain, h]
  rfl

theorem times_obtain (s : State) (m : ManagerId) (name : String) :
    (s.obtain m name).1.times = s.times := by
  cases hf : (s.manager m).find? name with
  | some i => rw [obtain_of_find hf]
  | none =>
      rw [obtain_of_find_none hf]
      have hsame := times_congr (setup_emit (s.enrol m name) (createdRecord name))
      exact hsame

theorem manager_enrol_of_ne {k : ManagerId} (h : k ≠ m) :
    (s.enrol m name).manager k = s.manager k := by
  simp [enrol, register, addLogger, State.manager, Array.getElem?_modify, h.symm]

theorem manager_enrol_self (hm : m < s.managers.size) :
    (s.enrol m name).manager m = { s.manager m with
      loggers := Keyed.insert name s.loggers.size (s.manager m).loggers } := by
  simp [enrol, register, addLogger, State.manager, Array.getElem?_modify,
    Array.getElem?_eq_getElem hm]

theorem find_enrol_of_ne {k : ManagerId} {other : String} (hm : m < s.managers.size)
    (h : k ≠ m ∨ other ≠ name) :
    ((s.enrol m name).manager k).find? other = (s.manager k).find? other := by
  by_cases hk : k = m
  · subst hk
    have hne : other ≠ name := h.resolve_left fun hc => hc rfl
    rw [manager_enrol_self hm]
    exact Keyed.lookup_insert_of_ne hne _ _
  · rw [manager_enrol_of_ne hk]

theorem find_enrol_self (hm : m < s.managers.size) :
    ((s.enrol m name).manager m).find? name = some s.loggers.size := by
  rw [manager_enrol_self hm]
  exact Keyed.lookup_insert_self _ _ _

theorem root_enrol (hm : m < s.managers.size) (k : ManagerId) :
    ((s.enrol m name).manager k).root = (s.manager k).root := by
  by_cases hk : k = m
  · subst hk
    rw [manager_enrol_self hm]
  · rw [manager_enrol_of_ne hk]

theorem size_loggers_enrol : (s.enrol m name).loggers.size = s.loggers.size + 1 :=
  Array.size_push _

theorem logger_enrol_of_ne {j : LoggerId} (h : j ≠ s.loggers.size) :
    (s.enrol m name).logger j = s.logger j := by
  simp [enrol, register, addLogger, State.logger, Array.getElem?_push, h]

theorem logger_enrol_self :
    (s.enrol m name).logger s.loggers.size
      = { name, fallback := some (s.manager m).root } := by
  simp [enrol, register, addLogger, State.logger]

/-- A new logger brings no appenders along. -/
theorem mem_appenders_of_enrol {j : LoggerId} {a : AppenderId}
    (ha : a ∈ ((s.enrol m name).logger j).appenders) : a ∈ (s.logger j).appenders := by
  by_cases hj : j = s.loggers.size
  · rw [hj, logger_enrol_self] at ha
    cases ha
  · rwa [logger_enrol_of_ne hj] at ha

/-- Numbers that lead to no logger give one without appenders. -/
theorem appenders_logger_of_le {i : LoggerId} (h : s.loggers.size ≤ i) :
    (s.logger i).appenders = [] := by
  rw [State.logger, Array.getElem?_eq_none h]
  rfl

/-- What a state with a new logger finds: the new one, or what was there before. -/
theorem find_enrol_cases (hs : s.Sound) (hm : m < s.managers.size) {k : ManagerId} {other : String}
    {i : LoggerId} (h : ((s.enrol m name).manager k).find? other = some i) :
    (k = m ∧ other = name ∧ i = s.loggers.size) ∨
      ((s.manager k).find? other = some i ∧ i ≠ s.loggers.size) := by
  by_cases hc : k = m ∧ other = name
  · obtain ⟨rfl, rfl⟩ := hc
    rw [find_enrol_self hm] at h
    exact .inl ⟨rfl, rfl, (Option.some.inj h).symm⟩
  · rw [find_enrol_of_ne hm (Decidable.not_and_iff_or_not.1 hc)] at h
    exact .inr ⟨h, Nat.ne_of_lt (hs.logger_lt h)⟩

/-- The new logger has no appenders, and the others are as they were. -/
theorem logger_enrol_cases (hs : s.Sound) (hm : m < s.managers.size) {k : ManagerId}
    {other : String} {i : LoggerId} (h : ((s.enrol m name).manager k).find? other = some i) :
    ((s.enrol m name).logger i).appenders = [] ∨
      (s.manager k).find? other = some i ∧ (s.enrol m name).logger i = s.logger i := by
  rcases find_enrol_cases hs hm h with ⟨-, -, rfl⟩ | ⟨h, hi⟩
  · rw [logger_enrol_self]
    exact .inl rfl
  · exact .inr ⟨h, logger_enrol_of_ne hi⟩

theorem Sound.enrol (hs : s.Sound) (hm : m < s.managers.size)
    (hn : (s.manager m).find? name = none) : (s.enrol m name).Sound := by
  constructor
  case sorted =>
    intro k
    by_cases hk : k = m
    · subst hk
      rw [manager_enrol_self hm]
      exact Keyed.pairwise_insert (hs.sorted k)
    · rw [manager_enrol_of_ne hk]
      exact hs.sorted k
  case logger_lt =>
    intro k other i hf
    rw [size_loggers_enrol]
    rcases find_enrol_cases hs hm hf with ⟨-, -, rfl⟩ | ⟨hf, -⟩
    · exact Nat.lt_succ_self _
    · exact Nat.lt_succ_of_lt (hs.logger_lt hf)
  case name =>
    intro k other i hf
    rcases find_enrol_cases hs hm hf with ⟨-, rfl, rfl⟩ | ⟨hf, hi⟩
    · rw [logger_enrol_self]
    · rw [logger_enrol_of_ne hi, hs.name hf]
  case manager =>
    intro k l other other' i hf hf'
    rcases find_enrol_cases hs hm hf with ⟨rfl, -, rfl⟩ | ⟨hf, hi⟩
    · rcases find_enrol_cases hs hm hf' with ⟨rfl, -, -⟩ | ⟨-, hi⟩
      · rfl
      · exact absurd rfl hi
    · rcases find_enrol_cases hs hm hf' with ⟨-, -, hi'⟩ | ⟨hf', -⟩
      · exact absurd hi' hi
      · exact hs.manager hf hf'
  case root =>
    intro k hk
    have hk' : k < s.managers.size := by simpa [State.enrol, register, addLogger] using hk
    rw [root_enrol hm]
    rw [find_enrol_of_ne hm, hs.root k hk']
    -- a manager has its root, so the name that it lacks is another one
    by_cases h : k = m
    · refine .inr fun hr => ?_
      subst h
      rw [← hr, hs.root k hk'] at hn
      cases hn
    · exact .inl h
  case fallback =>
    intro k other i hf
    rw [root_enrol hm]
    rcases find_enrol_cases hs hm hf with ⟨rfl, rfl, rfl⟩ | ⟨hf, hi⟩
    · rw [logger_enrol_self, if_neg]
      intro hr
      rw [hr, hs.root k hm] at hn
      cases hn
    · rw [logger_enrol_of_ne hi, hs.fallback hf]
  case appender_lt => exact fun i a ha => hs.appender_lt i a (mem_appenders_of_enrol ha)

theorem Sound.obtain (hs : s.Sound) (hm : m < s.managers.size) (name : String) :
    (s.obtain m name).1.Sound := by
  cases hf : (s.manager m).find? name with
  | some i => rwa [obtain_of_find hf]
  | none =>
      rw [obtain_of_find_none hf]
      exact (hs.enrol hm hf).congr (setup_emit _ _)

theorem find_obtain (hm : m < s.managers.size) (name : String) :
    ((s.obtain m name).1.manager m).find? name = some (s.obtain m name).2 := by
  cases hf : (s.manager m).find? name with
  | some i => rw [obtain_of_find hf, hf]
  | none => rw [obtain_of_find_none hf, manager_congr (setup_emit _ _), find_enrol_self hm]

/-! ## The frame of a name -/

/-- All but what belongs to a name of a manager is as it was. -/
structure Beside (m : ManagerId) (name : String) (s t : State) : Prop where
  times : t.times = s.times
  facade : t.facade = s.facade
  size_managers : t.managers.size = s.managers.size
  root : ∀ k, (t.manager k).root = (s.manager k).root
  find : ∀ k other, k ≠ m ∨ other ≠ name → (t.manager k).find? other = (s.manager k).find? other
  /-- Who has a logger keeps it. -/
  kept : ∀ i, (s.manager m).find? name = some i → (t.manager m).find? name = some i
  /-- Who gets one gets a new one. -/
  new : (s.manager m).find? name = none → ∀ i : Nat, (t.manager m).find? name = some i →
    s.loggers.size ≤ i
  size_loggers : s.loggers.size ≤ t.loggers.size
  logger : ∀ j : Nat, j < s.loggers.size → (s.manager m).find? name ≠ some j →
    t.logger j = s.logger j
  size_appenders : s.appenders.size ≤ t.appenders.size
  setting : ∀ a : Nat, a < s.appenders.size →
    (∀ i, (s.manager m).find? name = some i → a ∉ (s.logger i).appenders) →
    t.setting a = s.setting a

theorem Beside.congr_left {u : State} (h : t.setup = s.setup) (hb : Beside m name t u) :
    Beside m name s u where
  times := hb.times.trans (times_congr h)
  facade := hb.facade.trans (facade_congr h)
  size_managers := by rw [hb.size_managers, managers_congr h]
  root k := by rw [hb.root, manager_congr h]
  find k other ho := by rw [hb.find k other ho, manager_congr h]
  kept i hi := hb.kept i (by rw [manager_congr h, hi])
  new hn := by
    rw [← loggers_congr h]
    exact hb.new (by rw [manager_congr h, hn])
  size_loggers := by rw [← loggers_congr h]; exact hb.size_loggers
  logger j hj hn := by
    rw [← loggers_congr h] at hj
    rw [← manager_congr h] at hn
    rw [hb.logger j hj hn, logger_congr h]
  size_appenders := by rw [← size_appenders_congr h]; exact hb.size_appenders
  setting a ha hn := by
    rw [← size_appenders_congr h] at ha
    rw [hb.setting a ha, setting_congr h]
    intro i hi
    rw [manager_congr h] at hi
    rw [logger_congr h]
    exact hn i hi

/-- Obtaining a logger and changing it is beside all other names. -/
theorem beside_of_local (hm : m < s.managers.size)
    (h : Local (s.obtain m name).2 (s.obtain m name).1 t) : Beside m name s t := by
  cases hf : (s.manager m).find? name with
  | some i =>
      -- the name keeps its logger, the only one that has changed
      rw [obtain_of_find hf] at h
      exact {
        times := h.times
        facade := h.facade
        size_managers := by rw [h.managers]
        root := fun k => by rw [h.manager]
        find := fun k _ _ => by rw [h.manager]
        kept := fun i hi => by rw [h.manager, hi]
        new := fun hn => by
          rw [hf] at hn
          cases hn
        size_loggers := Nat.le_of_eq h.size_loggers.symm
        logger := fun j _ hn => h.logger j fun hji => hn (by rw [hf, hji])
        size_appenders := h.size_appenders
        setting := fun a ha hn => h.setting a ha (hn i hf) }
  | none =>
      -- the name gets a new logger, and the old ones are as they were
      rw [obtain_of_find_none hf] at h
      have he : ((s.enrol m name).emit (createdRecord name)).setup = (s.enrol m name).setup :=
        setup_emit _ _
      exact {
        times := by
          rw [h.times, times_congr he]
          rfl
        facade := by
          rw [h.facade, facade_congr he]
          rfl
        size_managers := by
          rw [h.managers, managers_congr he]
          simp [State.enrol, register, addLogger]
        root := fun k => by rw [h.manager, manager_congr he, root_enrol hm]
        find := fun k other ho => by rw [h.manager, manager_congr he, find_enrol_of_ne hm ho]
        kept := fun i hi => by
          rw [hf] at hi
          cases hi
        new := fun _ i hi => by
          rw [h.manager, manager_congr he, find_enrol_self hm] at hi
          exact Nat.le_of_eq (Option.some.inj hi)
        size_loggers := by
          rw [h.size_loggers, loggers_congr he, size_loggers_enrol]
          exact Nat.le_succ _
        logger := fun j hj _ => by
          rw [h.logger j (Nat.ne_of_lt hj), logger_congr he, logger_enrol_of_ne (Nat.ne_of_lt hj)]
        size_appenders := by
          have hle := h.size_appenders
          rwa [size_appenders_congr he] at hle
        setting := fun a ha _ => by
          rw [h.setting a, setting_congr he]
          · rfl
          · rwa [size_appenders_congr he]
          · rw [logger_congr he, logger_enrol_self]
            exact List.not_mem_nil }

/-! ## Appenders of one logger only -/

/-- No appender of a logger of the manager is attached to any other logger. -/
def Unshared (s : State) (m : ManagerId) : Prop :=
  ∀ name i, (s.manager m).find? name = some i → ∀ j a, a ∈ (s.logger i).appenders →
    a ∈ (s.logger j).appenders → j = i

theorem Unshared.congr (h : t.setup = s.setup) (hu : s.Unshared m) : t.Unshared m := by
  intro name i hf j a hi hj
  rw [manager_congr h] at hf
  rw [logger_congr h] at hi hj
  exact hu name i hf j a hi hj

theorem Unshared.of_local {i : LoggerId} (hs : s.Sound) (hu : s.Unshared m) (h : Local i s t) :
    t.Unshared m := by
  -- what is attached to another logger was attached to it before
  have hother : ∀ j (a : Nat), j ≠ i → a ∈ (t.logger j).appenders →
      a ∈ (s.logger j).appenders ∧ a < s.appenders.size := by
    intro j a hj ha
    rw [h.logger j hj] at ha
    exact ⟨ha, hs.appender_lt j a ha⟩
  intro name k hf j a hk hj
  rw [h.manager] at hf
  by_cases hki : k = i
  · subst hki
    by_cases hjk : j = k
    · exact hjk
    · obtain ⟨haj, hlt⟩ := hother j a hjk hj
      rcases h.attached a hk with hak | hnew
      · exact hu name k hf j a hak haj
      · omega
  · obtain ⟨hak, hlt⟩ := hother k a hki hk
    by_cases hji : j = i
    · subst hji
      rcases h.attached a hj with haj | hnew
      · exact hu name k hf j a hak haj
      · omega
    · exact hu name k hf j a hak (hother j a hji hj).1

theorem Unshared.enrol {l : ManagerId} (hu : s.Unshared l) (hm : m < s.managers.size) :
    (s.enrol m name).Unshared l := by
  intro other i hf j a hi hj
  by_cases ho : l = m ∧ other = name
  · obtain ⟨rfl, rfl⟩ := ho
    rw [find_enrol_self hm] at hf
    have hnil := appenders_logger_of_le (s := s) (Nat.le_refl s.loggers.size)
    rw [← Option.some.inj hf] at hi
    have hmem := mem_appenders_of_enrol hi
    rw [hnil] at hmem
    cases hmem
  · rw [find_enrol_of_ne hm (Decidable.not_and_iff_or_not.1 ho)] at hf
    exact hu other i hf j a (mem_appenders_of_enrol hi) (mem_appenders_of_enrol hj)

theorem Unshared.obtain {l : ManagerId} (hu : s.Unshared l) (hm : m < s.managers.size)
    (name : String) : (s.obtain m name).1.Unshared l := by
  cases hf : (s.manager m).find? name with
  | some i => rwa [obtain_of_find hf]
  | none =>
      rw [obtain_of_find_none hf]
      exact (hu.enrol hm).congr (setup_emit _ _)

/-- No appender of a logger is attached to another logger of a manager. -/
def Apart (s : State) (m : ManagerId) (j : LoggerId) : Prop :=
  ∀ name i, (s.manager m).find? name = some i → i ≠ j → ∀ a : Nat, a ∈ (s.logger i).appenders →
    a ∉ (s.logger j).appenders

theorem Apart.congr {j : LoggerId} (h : t.setup = s.setup) (hd : s.Apart m j) : t.Apart m j := by
  intro name i hf hij a ha
  rw [manager_congr h] at hf
  rw [logger_congr h] at ha ⊢
  exact hd name i hf hij a ha

theorem Unshared.apart (hu : s.Unshared m) (j : LoggerId) : s.Apart m j :=
  fun name i hf hij a ha haj => hij (hu name i hf j a ha haj).symm

theorem Unshared.apart_of_find {k : ManagerId} {j : LoggerId} (hu : s.Unshared m)
    (h : (s.manager m).find? name = some j) : s.Apart k j :=
  fun _ i _ hij a ha haj => hij (hu name j h i a haj ha)

end ConfigLog.Logging.State
