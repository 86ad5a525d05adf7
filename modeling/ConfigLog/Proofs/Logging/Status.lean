import ConfigLog.Proofs.Logging.Building
import ConfigLog.Proofs.Logging.Sound

set_option autoImplicit false

/-! # What an action makes of a logger

The `Status` of a name is all that its logger goes by: the threshold, the pattern, and the settings
of the appenders in order. An action that does not fail gives its name the status that
`Action.result` computes from the status before, and leaves all else alone (`Achieved`); an action
that fails changes nothing (`perform_cases`).
-/

namespace ConfigLog.Logging

/-- What a logger goes by. -/
structure Status where
  level : Level
  pattern : Pattern
  appenders : List Setting
  deriving DecidableEq, Repr

/-- What a logger goes by after an action, under the pattern that it has then. -/
def Action.status (times : TimeFormat) (p : Pattern) : Action → Status
  | .apply d => {
      level := d.level.getD .debug
      pattern := p
      appenders := d.appenders.map (·.setting times p) }
  | .disable _ => { level := .off, pattern := p, appenders := [] }

/-- The pattern that an action leaves a logger with; only a definition that gives one changes it. -/
def Action.pattern (times : TimeFormat) (p : Pattern) : Action → Pattern
  | .apply d => (Pattern.given? times d.pattern).getD p
  | .disable _ => p

/-- What an action makes of a logger, or of a name without one: a new logger has the default
pattern. -/
def Action.result (a : Action) (times : TimeFormat) (before : Option Status) : Status :=
  a.status times (a.pattern times (before.elim .default (·.pattern)))

/-- What actions that do not fail make of the logger of a name, one after the other. -/
def outcome (times : TimeFormat) (name : String) (done : List Action) (before : Option Status) :
    Option Status :=
  done.foldl (fun status a => if a.name = name then some (a.result times status) else status) before

theorem outcome_cons (times : TimeFormat) (name : String) (a : Action) (done : List Action)
    (before : Option Status) : outcome times name (a :: done) before
      = outcome times name done
          (if a.name = name then some (a.result times before) else before) := rfl

theorem outcome_append (times : TimeFormat) (name : String) (as bs : List Action)
    (before : Option Status) : outcome times name (as ++ bs) before
      = outcome times name bs (outcome times name as before) :=
  List.foldl_append

theorem outcome_of_forall_ne {times : TimeFormat} {name : String} {done : List Action}
    (h : ∀ a ∈ done, a.name ≠ name) (before : Option Status) :
    outcome times name done before = before := by
  induction done with
  | nil => rfl
  | cons a done ih =>
      rw [outcome_cons, if_neg (h a List.mem_cons_self)]
      exact ih fun b hb => h b (List.mem_cons_of_mem a hb)

theorem outcome_of_mem {times : TimeFormat} {a : Action} {done : List Action}
    (hn : (done.map (·.name)).Nodup) (ha : a ∈ done) (before : Option Status) :
    outcome times a.name done before = some (a.result times before) := by
  induction done with
  | nil => cases ha
  | cons b done ih =>
      rw [List.map_cons, List.nodup_cons] at hn
      rw [outcome_cons]
      rcases List.mem_cons.1 ha with rfl | ha
      · rw [if_pos rfl]
        exact outcome_of_forall_ne (fun c hc hname => hn.1 (List.mem_map.2 ⟨c, hc, hname⟩)) _
      · have hne : b.name ≠ a.name := fun hc => hn.1 (List.mem_map.2 ⟨a, ha, hc.symm⟩)
        rw [if_neg hne]
        exact ih hn.2 ha

/-- The report on an action alone that has not failed. -/
def Action.success : Action → Reconciliation
  | .apply d => { applied := [d.name] }
  | .disable name => { disabled := [name] }

namespace State

variable {s t : State} {m : ManagerId}

/-! ## The status of a name -/

/-- What a logger goes by. -/
def statusOf (s : State) (i : LoggerId) : Status where
  level := (s.logger i).level
  pattern := (s.logger i).pattern
  appenders := (s.logger i).appenders.map s.setting

/-- What the logger of a name goes by. -/
def status? (s : State) (m : ManagerId) (name : String) : Option Status :=
  ((s.manager m).find? name).map s.statusOf

theorem status?_congr (h : t.setup = s.setup) (m : ManagerId) (name : String) :
    t.status? m name = s.status? m name := by
  rw [status?, status?, manager_congr h]
  congr 1
  funext i
  simp only [statusOf, logger_congr h, Status.mk.injEq, true_and]
  exact List.map_congr_left fun a _ => setting_congr h a

/-- A logger is the same in two states, and so are the settings of its appenders. -/
def Untouched (s t : State) (j : LoggerId) : Prop :=
  t.logger j = s.logger j ∧ ∀ b : Nat, b ∈ (s.logger j).appenders → t.setting b = s.setting b

theorem Untouched.trans {u : State} {j : LoggerId} (h : Untouched s t j) (h' : Untouched t u j) :
    Untouched s u j := by
  refine ⟨h'.1.trans h.1, fun b hb => ?_⟩
  rw [h'.2 b (by rw [h.1]; exact hb), h.2 b hb]

theorem Untouched.of_setup (h : t.setup = s.setup) (j : LoggerId) : Untouched s t j :=
  ⟨logger_congr h j, fun b _ => setting_congr h b⟩

theorem status?_of_untouched {name : String}
    (hf : (t.manager m).find? name = (s.manager m).find? name)
    (h : ∀ j, (s.manager m).find? name = some j → Untouched s t j) :
    t.status? m name = s.status? m name := by
  rw [status?, status?, hf]
  cases hj : (s.manager m).find? name with
  | none => rfl
  | some j =>
      obtain ⟨hlog, hset⟩ := h j hj
      simp only [Option.map_some, statusOf, hlog, Option.some.injEq, Status.mk.injEq, true_and]
      exact List.map_congr_left hset

/-- A new logger has no appenders, and it prints with the default pattern. -/
theorem status?_enrol_self (hm : m < s.managers.size) (name : String) :
    (s.enrol m name).status? m name
      = some { level := .debug, pattern := .default, appenders := [] } := by
  rw [status?, find_enrol_self hm, Option.map_some, statusOf, logger_enrol_self]
  rfl

theorem status?_enrol_of_ne (hs : s.Sound) (hm : m < s.managers.size) {name other : String}
    (h : other ≠ name) : (s.enrol m name).status? m other = s.status? m other := by
  refine status?_of_untouched (find_enrol_of_ne hm (.inr h)) fun j hj => ?_
  exact ⟨logger_enrol_of_ne (Nat.ne_of_lt (hs.logger_lt hj)), fun _ _ => rfl⟩

/-! ## Actions that do not fail -/

/-- What an action comes to that does not fail: its name has the status that the action gives it, on
new appenders, and all else is as it was. -/
structure Achieved (m : ManagerId) (a : Action) (s t : State) : Prop where
  sound : t.Sound
  unshared : ∀ l, s.Unshared l → t.Unshared l
  beside : Beside m a.name s t
  status : t.status? m a.name = some (a.result s.times (s.status? m a.name))
  nodup : ∀ i, (t.manager m).find? a.name = some i → (t.logger i).appenders.Nodup
  fresh : ∀ i, (t.manager m).find? a.name = some i → ∀ b : Nat, b ∈ (t.logger i).appenders →
    s.appenders.size ≤ b

theorem Achieved.congr_left {a : Action} {u : State} (h : t.setup = s.setup)
    (ha : Achieved m a t u) : Achieved m a s u where
  sound := ha.sound
  unshared l hl := ha.unshared l (hl.congr h)
  beside := ha.beside.congr_left h
  status := by rw [ha.status, status?_congr h, times_congr h]
  nodup := ha.nodup
  fresh := by rw [← size_appenders_congr h]; exact ha.fresh

theorem Achieved.congr_right {a : Action} {u : State} (h : u.setup = t.setup)
    (ha : Achieved m a s t) : Achieved m a s u where
  sound := ha.sound.congr h
  unshared l hl := (ha.unshared l hl).congr h
  beside := {
    times := (times_congr h).trans ha.beside.times
    facade := (facade_congr h).trans ha.beside.facade
    size_managers := by rw [managers_congr h, ha.beside.size_managers]
    root := fun k => by rw [manager_congr h, ha.beside.root]
    find := fun k other ho => by rw [manager_congr h, ha.beside.find k other ho]
    kept := fun i hi => by rw [manager_congr h, ha.beside.kept i hi]
    new := by rw [manager_congr h]; exact ha.beside.new
    size_loggers := by rw [loggers_congr h]; exact ha.beside.size_loggers
    logger := fun j hj hn => by rw [logger_congr h, ha.beside.logger j hj hn]
    size_appenders := by rw [size_appenders_congr h]; exact ha.beside.size_appenders
    setting := fun b hb hn => by rw [setting_congr h, ha.beside.setting b hb hn] }
  status := by rw [status?_congr h, ha.status]
  nodup i hi := by
    rw [manager_congr h] at hi
    rw [logger_congr h]
    exact ha.nodup i hi
  fresh i hi := by
    rw [manager_congr h] at hi
    rw [logger_congr h]
    exact ha.fresh i hi

/-- The pattern that the logger of a name starts from. -/
theorem pattern_obtain (name : String) :
    ((s.obtain m name).1.logger (s.obtain m name).2).pattern
      = (s.status? m name).elim .default (·.pattern) := by
  rw [status?]
  cases hf : (s.manager m).find? name with
  | some i =>
      rw [obtain_of_find hf]
      rfl
  | none =>
      rw [obtain_of_find_none hf, logger_congr (setup_emit _ _), logger_enrol_self]
      rfl

theorem size_appenders_obtain (name : String) :
    (s.obtain m name).1.appenders.size = s.appenders.size := by
  cases hf : (s.manager m).find? name with
  | some i => rw [obtain_of_find hf]
  | none =>
      rw [obtain_of_find_none hf, size_appenders_congr (setup_emit _ _)]
      rfl

theorem lt_size_obtain (hs : s.Sound) (hm : m < s.managers.size) (name : String) :
    (s.obtain m name).2 < (s.obtain m name).1.loggers.size :=
  (hs.obtain hm name).logger_lt (find_obtain hm name)

/-- Obtaining the logger of a name and renewing it is what an action does. -/
theorem achieved_of_renewed (hs : s.Sound) (hm : m < s.managers.size) (a : Action)
    (h : Renewed (s.obtain m a.name).2 (s.obtain m a.name).1
      (a.result s.times (s.status? m a.name)).level (a.result s.times (s.status? m a.name)).pattern
      (a.result s.times (s.status? m a.name)).appenders t) : Achieved m a s t := by
  -- the name leads to the logger that was obtained, before and after it has been renewed
  have hfind : (t.manager m).find? a.name = some (s.obtain m a.name).2 := by
    rw [h.spared.manager, find_obtain hm]
  have honly : ∀ i, (t.manager m).find? a.name = some i → i = (s.obtain m a.name).2 :=
    fun i hi => Option.some.inj (hi.symm.trans hfind)
  have hsound := hs.obtain hm a.name
  exact {
    sound := hsound.of_local h.spared
    unshared := fun l hl => (hl.obtain hm a.name).of_local hsound h.spared
    beside := beside_of_local hm h.spared
    status := by
      rw [State.status?, hfind, Option.map_some, statusOf, h.level, h.pattern, h.settings]
    nodup := fun i hi => by
      rw [honly i hi]
      exact h.nodup
    fresh := fun i hi b hb => by
      rw [honly i hi] at hb
      rw [← size_appenders_obtain (m := m) a.name]
      exact h.fresh b hb }

/-- The loggers of other names are not touched, as long as they have no appender in common with the
one that is acted on. -/
theorem Achieved.untouched {a : Action} (hs : s.Sound) (h : Achieved m a s t) {j : Nat}
    (hj : j < s.loggers.size) (hn : (s.manager m).find? a.name ≠ some j) (hd : s.Apart m j) :
    Untouched s t j := by
  refine ⟨h.beside.logger j hj hn, fun b hb => ?_⟩
  refine h.beside.setting b (hs.appender_lt j b hb) fun i hi hbi => ?_
  exact hd a.name i hi (fun hij => hn (hij ▸ hi)) b hbi hb

theorem Achieved.apart {a : Action} (hs : s.Sound) (h : Achieved m a s t) {j : Nat}
    (hj : j < s.loggers.size) (hn : (s.manager m).find? a.name ≠ some j) (hd : s.Apart m j) :
    t.Apart m j := by
  intro name i hf hij b hb
  rw [(h.untouched hs hj hn hd).1]
  by_cases hname : name = a.name
  · -- the logger of the action has new appenders only
    subst hname
    intro hbj
    have hlt := hs.appender_lt j b hbj
    have hle := h.fresh i hf b hb
    omega
  · rw [h.beside.find m name (.inr hname)] at hf
    have hne : (s.manager m).find? a.name ≠ some i := fun hc => hname (hs.name_inj hf hc)
    rw [h.beside.logger i (hs.logger_lt hf) hne] at hb
    exact hd name i hf hij b hb

theorem Achieved.status?_of_ne {a : Action} (hs : s.Sound) (hu : s.Unshared m)
    (h : Achieved m a s t) {name : String} (hn : name ≠ a.name) :
    t.status? m name = s.status? m name := by
  refine status?_of_untouched (h.beside.find m name (.inr hn)) fun j hj => ?_
  exact h.untouched hs (hs.logger_lt hj) (fun hc => hn (hs.name_inj hj hc)) (hu.apart j)

/-! ## Disabling -/

theorem achieved_disable (hs : s.Sound) (hm : m < s.managers.size) (name : String) :
    Achieved m (.disable name) s (s.disable m name) := by
  refine achieved_of_renewed hs hm (.disable name) ?_
  have hc := renewed_clear (lt_size_obtain hs hm name) .off
  rw [pattern_obtain] at hc
  exact hc

/-! ## Applying -/

/-- Applying a definition prepares the state and then either fails or does what it shall. -/
theorem apply_cases (hs : s.Sound) (hm : m < s.managers.size) (d : Definition) :
    (∃ e, (s.apply m d).2 = .error e ∧ (s.apply m d).1.setup = s.setup) ∨
      ((s.apply m d).2 = .ok () ∧ Achieved m (.apply d) s (s.apply m d).1) := by
  have hw := writes_definedPattern s d.pattern
  have hp := (definedPattern_snd s d.pattern).2
  have hb := prepares_buildAll d.appenders (s.definedPattern d.pattern).1
  rw [apply_eq]
  rcases andThen_cases (s.definedPattern d.pattern) _ with ⟨e, -, heq⟩ | ⟨p, hok, heq⟩
  · rw [heq]
    exact .inl ⟨e, rfl, hw.setup⟩
  · obtain rfl := hp p hok
    rw [heq]
    generalize (s.definedPattern d.pattern).1 = t at *
    rcases andThen_cases (t.buildAll d.appenders) _ with ⟨e, -, heq⟩ | ⟨xs, hxs, heq⟩
    · rw [heq]
      exact .inl ⟨e, rfl, hb.setup.trans hw.setup⟩
    · rw [heq]
      generalize (t.buildAll d.appenders).1 = u at *
      have hset : u.setup = s.setup := hb.setup.trans hw.setup
      have hsu : u.Sound := hs.congr hset
      have hmu : m < u.managers.size := by rw [managers_congr hset]; exact hm
      have hsettings := buildAll_settings hxs
      rw [← times_congr hset]
      refine .inr ⟨rfl, Achieved.congr_left hset ?_⟩
      refine achieved_of_renewed hsu hmu (.apply d) ?_
      have hr := renewed_install (lt_size_obtain hsu hmu d.name) (Pattern.given? u.times d.pattern)
        (d.level.getD .debug) xs
      rw [pattern_obtain] at hr
      -- each new appender goes by its own pattern or by the one just put up
      have hnew : ∀ q : Pattern, (xs.map fun x => x.setting.inherit q)
          = d.appenders.map (·.setting u.times q) := by
        intro q
        calc (xs.map fun x => x.setting.inherit q)
            = (xs.map (·.setting)).map (·.inherit q) := by rw [List.map_map]; rfl
          _ = (d.appenders.map (·.setting u.times .default)).map (·.inherit q) := by
              rw [hsettings, times_congr hb.setup]
          _ = d.appenders.map (·.setting u.times q) := by
              rw [List.map_map]
              exact List.map_congr_left fun a _ => a.inherit_setting u.times q .default
      rw [hnew] at hr
      exact hr

/-! ## Steps of a plan -/

/-- A definition is applied, a record tells of it, and the report says whether it failed. -/
theorem perform_apply (s : State) (m : ManagerId) (d : Definition) :
    ∃ record, (perform m (s, {}) (.apply d)).1 = (s.apply m d).1.emit record ∧
      ((∃ e, (s.apply m d).2 = .error e ∧
          (perform m (s, {}) (.apply d)).2 = { failed := [(d.name, e)] }) ∨
        (s.apply m d).2 = .ok () ∧
          (perform m (s, {}) (.apply d)).2 = (Action.apply d).success) := by
  simp only [perform]
  rcases s.apply m d with ⟨t, e | ⟨⟩⟩
  · exact ⟨_, rfl, .inl ⟨e, rfl, rfl⟩⟩
  · exact ⟨_, rfl, .inr ⟨rfl, rfl⟩⟩

theorem perform_cases (hs : s.Sound) (hm : m < s.managers.size) (a : Action) :
    (∃ d e, a = .apply d ∧ (perform m (s, {}) a).2 = { failed := [(d.name, e)] } ∧
      (perform m (s, {}) a).1.setup = s.setup) ∨
    ((perform m (s, {}) a).2 = a.success ∧ Achieved m a s (perform m (s, {}) a).1) := by
  cases a with
  | apply d =>
      obtain ⟨record, hstate, hreport⟩ := perform_apply s m d
      rw [hstate]
      rcases apply_cases hs hm d with ⟨e, he, hset⟩ | ⟨hok, ha⟩
      · rcases hreport with ⟨e', -, hr⟩ | ⟨hok, -⟩
        · exact .inl ⟨d, e', rfl, hr, (setup_emit _ _).trans hset⟩
        · rw [hok] at he
          cases he
      · rcases hreport with ⟨e', he, -⟩ | ⟨-, hr⟩
        · rw [hok] at he
          cases he
        · exact .inr ⟨hr, ha.congr_right (setup_emit _ _)⟩
  | disable name =>
      exact .inr ⟨rfl, (achieved_disable hs hm name).congr_right (setup_emit _ _)⟩

end State

end ConfigLog.Logging
