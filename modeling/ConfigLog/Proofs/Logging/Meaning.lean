import ConfigLog.Proofs.Logging.Opened

set_option autoImplicit false

/-! # What sets of definitions mean

`Definitions.lines` computes from a set of definitions alone what has to be written when an event
is handed to the logger of a name. A new manager that has been reconciled to the set, without a
failure and without a facade, writes exactly that (`say_writes`): each of its loggers goes by the
definition of its name (`Configured`), and handing out events changes nothing about it
(`Configured.say`).
-/

namespace ConfigLog.Logging

/-! ## What definitions ask to write -/

/-- A text and where it is written. -/
structure Line where
  destination : Destination
  text : String
  deriving DecidableEq, Repr

/-- The line for an event from an appender, under the pattern of its logger. -/
def AppenderDefinition.line (d : AppenderDefinition) (times : TimeFormat) (p : Pattern)
    (name : String) (level : Level) (e : Event) : Line where
  destination := d.destination
  text := ((Pattern.given? times d.pattern).getD p).render times name level e

/-- The definition lets events of a level through. Nothing gets through at `off`. -/
def Definition.accepts (d : Definition) (level : Level) : Bool :=
  level != .off && d.level.getD .debug ≤ level

/-- The lines for an event from the appenders that are for its level, in the order of the
definition. -/
def Definition.lines (d : Definition) (times : TimeFormat) (name : String) (level : Level)
    (e : Event) : List Line :=
  (d.appenders.filter fun a => a.level.getD .debug ≤ level).map
    (·.line times ((Pattern.given? times d.pattern).getD .default) name level e)

namespace Definitions

/-- The definition that goes for a name. Without one in the set, a logger has no appenders, but the
root prints all events. -/
def effective (ds : Definitions) (name : String) : Definition :=
  (ds.get? name).getD
    { name, appenders := if name = rootName then [{ destination := .stdout }] else [] }

/-- The lines that a set of definitions asks for when an event is handed to the logger of a name. A
logger without appenders leaves the event to the root, under its own name. -/
def lines (ds : Definitions) (times : TimeFormat) (name : String) (level : Level) (e : Event) :
    List Line :=
  if !(ds.effective name).accepts level then []
  else if !(ds.effective name).appenders.isEmpty then (ds.effective name).lines times name level e
  else if name ≠ rootName && (ds.effective rootName).accepts level then
    (ds.effective rootName).lines times name level e
  else []

end Definitions

/-- An event for the logger of a name. -/
structure Saying where
  name : String
  level : Level
  event : Event

/-- What a new logger goes by once its definition has been applied. -/
def Definition.status (d : Definition) (times : TimeFormat) : Status :=
  (Action.apply d).result times none

/-- The line for an event from an appender that is set to something. -/
def Setting.line (x : Setting) (times : TimeFormat) (name : String) (level : Level) (e : Event) :
    Line where
  destination := x.destination
  text := x.pattern.render times name level e

theorem Definition.lines_eq (d : Definition) (times : TimeFormat) (name : String) (level : Level)
    (e : Event) : d.lines times name level e
      = ((d.status times).appenders.filter fun x => x.level ≤ level).map
          (·.line times name level e) := by
  have happ : (d.status times).appenders
      = d.appenders.map (·.setting times ((Pattern.given? times d.pattern).getD .default)) := rfl
  calc d.lines times name level e
      = (d.appenders.filter fun a => a.level.getD .debug ≤ level).map fun a =>
          (a.setting times ((Pattern.given? times d.pattern).getD .default)).line times name level
            e := rfl
    _ = ((d.status times).appenders.filter fun x => x.level ≤ level).map
          (·.line times name level e) := by
        rw [happ, List.filter_map, List.map_map]
        rfl

namespace State

variable {s t : State} {m k : Nat} {ds : Definitions} {times : TimeFormat}

/-! ## Handing out events -/

/-- The attempt to write an event that an open sink takes. -/
def attempt (s : State) (name : String) (level : Level) (e : Event) (a : AppenderId) : Attempt where
  appender := a
  text := (s.setting a).pattern.render s.times name level e
  timed := (s.setting a).pattern.isTimed
  taken := true

/-- The attempts of a list of appenders with open sinks. -/
def attemptsOf (s : State) (name : String) (level : Level) (e : Event) (as : List AppenderId) :
    List Attempt :=
  (as.filter fun a => (s.setting a).level ≤ level).map (s.attempt name level e)

/-- The line that an attempt is about. -/
def line (s : State) (x : Attempt) : Line where
  destination := (s.setting x.appender).destination
  text := x.text

theorem appender_attemptsOf (s : State) (name : String) (level : Level) (e : Event)
    (as : List AppenderId) :
    (s.attemptsOf name level e as).map (·.appender)
      = as.filter fun a => (s.setting a).level ≤ level := by
  rw [attemptsOf, List.map_map]
  exact List.map_id _

theorem line_attemptsOf (s : State) (name : String) (level : Level) (e : Event)
    (as : List AppenderId) :
    (s.attemptsOf name level e as).map s.line
      = ((as.map s.setting).filter fun x => x.level ≤ level).map (·.line s.times name level e) := by
  calc (s.attemptsOf name level e as).map s.line
      = (as.filter fun a => (s.setting a).level ≤ level).map
          fun a => (s.setting a).line s.times name level e := by
        rw [attemptsOf, List.map_map]
        rfl
    _ = ((as.map s.setting).filter fun x => x.level ≤ level).map
          (·.line s.times name level e) := by
        rw [List.filter_map, List.map_map]
        rfl

/-- An appender is there and takes texts as it is. -/
def Serves (s : State) (a : AppenderId) : Prop :=
  ∃ x, s.appenders[a]? = some x ∧ x.isOpen

/-- Putting a text into a sink changes at most a file. -/
theorem put_eq (s : State) (broken : Option String) (handle : Option Nat) (text : String) :
    ∃ files, s.put broken handle text
      = ({ s with files }, broken.elim (.ok ()) fun reason => .error reason) := by
  cases broken with
  | some reason => exact ⟨s.files, rfl⟩
  | none =>
      cases handle with
      | some handle => exact ⟨s.files.append handle text, rfl⟩
      | none => exact ⟨s.files, rfl⟩

theorem give_of_open {x : Appender} (h : x.sink.isOpen) (a : AppenderId) (text : String) :
    s.give a x text = ((s.put x.broken x.sink.handle? text).1,
      (s.put x.broken x.sink.handle? text).2.map fun () => none) := by
  unfold give
  split
  · rename_i path hx
    rw [hx] at h
    cases h
  · rfl

theorem give_of_isOpen {x : Appender} (h : x.isOpen) (a : AppenderId) (text : String) :
    ∃ files, s.give a x text = ({ s with files }, .ok none) := by
  obtain ⟨hbroken, hopen⟩ := Bool.and_eq_true_iff.1 h
  obtain ⟨files, hput⟩ := s.put_eq x.broken x.sink.handle? text
  refine ⟨files, ?_⟩
  rw [give_of_open hopen, hput, Option.isNone_iff_eq_none.1 hbroken]
  rfl

theorem handOne_of_serves {a : AppenderId} (h : s.Serves a) (report : Report) (name : String)
    (level : Level) (e : Event) :
    ∃ files, handOne report name level e s a
      = { s with files, attempts := s.attempts ++ s.attemptsOf name level e [a] } := by
  obtain ⟨x, hx, hopen⟩ := h
  have hset := setting_of_getElem? hx
  by_cases hl : x.level ≤ level
  · obtain ⟨files, hg⟩ := give_of_isOpen (s := s) hopen a (x.pattern.render s.times name level e)
    have hnew : s.attemptsOf name level e [a] = [s.attempt name level e a] := by
      simp [attemptsOf, hset, Appender.setting, hl]
    refine ⟨files, ?_⟩
    rw [hnew]
    simp only [handOne, hand, hx, Appender.accepts, hl, decide_true, if_true, hg, note, attempt,
      hset, Appender.setting]
  · have hnew : s.attemptsOf name level e [a] = [] := by
      simp [attemptsOf, hset, Appender.setting, hl]
    refine ⟨s.files, ?_⟩
    rw [hnew, List.append_nil]
    simp [handOne, hand, hx, Appender.accepts, hl]

/-- Appenders with open sinks write what they shall, one after the other. -/
theorem foldl_handOne {as : List AppenderId} (h : ∀ a ∈ as, s.Serves a) (report : Report)
    (name : String) (level : Level) (e : Event) :
    ∃ files, as.foldl (handOne report name level e) s
      = { s with files, attempts := s.attempts ++ s.attemptsOf name level e as } := by
  induction as generalizing s with
  | nil => exact ⟨s.files, by rw [attemptsOf, List.filter_nil, List.map_nil, List.append_nil]; rfl⟩
  | cons a as ih =>
      obtain ⟨files, ha⟩ := handOne_of_serves (h a List.mem_cons_self) report name level e
      rw [List.foldl_cons, ha]
      -- the appenders are the same after the first one has written
      obtain ⟨files', has⟩ := ih (s := { s with
        files, attempts := s.attempts ++ s.attemptsOf name level e [a] }) fun b hb =>
          h b (List.mem_cons_of_mem a hb)
      have hsplit : s.attemptsOf name level e (a :: as)
          = s.attemptsOf name level e [a] ++ s.attemptsOf name level e as := by
        calc s.attemptsOf name level e (a :: as)
            = (([a] ++ as).filter fun b => (s.setting b).level ≤ level).map
                (s.attempt name level e) := rfl
          _ = s.attemptsOf name level e [a] ++ s.attemptsOf name level e as := by
              rw [List.filter_append, List.map_append]
              rfl
      refine ⟨files', ?_⟩
      rw [has, hsplit, ← List.append_assoc]
      rfl

/-! ## Loggers that go by their definitions -/

/-- Each logger of a manager goes by the definition of its name, on appenders that are ready to
write; a name without a definition may be without a logger. -/
structure Configured (times : TimeFormat) (ds : Definitions) (k m : Nat) (s : State) : Prop where
  intact : s.Intact m
  opened : s.Opened k
  anew : s.Anew k m
  status : ∀ name, s.status? m name = some ((ds.effective name).status times) ∨
    s.status? m name = none ∧ ds.get? name = none ∧ name ≠ rootName
  times : s.times = times

theorem Configured.root (h : s.Configured times ds k m) :
    s.status? m rootName = some ((ds.effective rootName).status times) :=
  (h.status rootName).resolve_right fun hn => hn.2.2 rfl

/-- A name without a logger gets one that goes by the definition, as a new logger does. -/
theorem Configured.enrol (h : s.Configured times ds k m) {name : String}
    (hf : (s.manager m).find? name = none) :
    (s.enrol m name).Configured times ds k m ∧
      (s.enrol m name).status? m name = some ((ds.effective name).status times) := by
  have hundefined : ds.get? name = none ∧ name ≠ rootName := by
    rcases h.status name with hs | hn
    · rw [State.status?, hf] at hs
      cases hs
    · exact hn.2
  have hnew : (s.enrol m name).status? m name = some ((ds.effective name).status times) := by
    rw [status?_enrol_self h.intact.lt, Definitions.effective, hundefined.1, Option.getD_none,
      if_neg hundefined.2]
    rfl
  refine ⟨⟨h.intact.enrol hf, h.opened.of_quiet ⟨rfl, rfl⟩,
    h.anew.enrol h.intact.sound h.intact.lt name, fun other => ?_, h.times⟩, hnew⟩
  by_cases hne : other = name
  · rw [hne]
    exact .inl hnew
  · rw [status?_enrol_of_ne h.intact.sound h.intact.lt hne]
    exact h.status other

/-- The logger that is obtained for a name goes by the definition. -/
theorem Configured.obtain (h : s.Configured times ds k m) (name : String) :
    (s.obtain m name).1.Configured times ds k m ∧
      (s.obtain m name).1.status? m name = some ((ds.effective name).status times) := by
  cases hf : (s.manager m).find? name with
  | some i =>
      rw [obtain_of_find hf]
      refine ⟨h, (h.status name).resolve_right fun hn => ?_⟩
      rw [State.status?, hf] at hn
      cases hn.1
  | none =>
      rw [obtain_of_find_none hf, emit_of_facade_eq_none (s := s.enrol m name) h.opened.facade]
      exact h.enrol hf

/-- The appenders of the loggers of the manager are there, with open sinks. -/
theorem Configured.serves (h : s.Configured times ds k m) {name : String} {i : LoggerId}
    (hf : (s.manager m).find? name = some i) : ∀ a ∈ (s.logger i).appenders, s.Serves a := by
  intro a ha
  have hlt := h.intact.sound.appender_lt i a ha
  exact ⟨s.appenders[a], Array.getElem?_eq_getElem hlt,
    h.opened.isOpen a _ (h.anew.attached name i hf a ha) (Array.getElem?_eq_getElem hlt)⟩

/-! ## Who gets an event -/

/-- A logger without appenders hands its events to the root of its manager, unless it is the root
itself. -/
theorem Sound.receivers (hs : s.Sound) {name : String} {i : LoggerId}
    (hf : (s.manager m).find? name = some i) (level : Level) :
    s.receivers i level =
      if !(s.logger i).accepts level then []
      else if !(s.logger i).appenders.isEmpty then (s.logger i).appenders
      else if name ≠ rootName && (s.logger (s.manager m).root).accepts level then
        (s.logger (s.manager m).root).appenders
      else [] := by
  simp only [State.receivers, hs.fallback hf]
  by_cases hname : name = rootName
  · simp [hname]
  · simp [hname]

/-- What a status says about a logger. -/
theorem status?_eq_some {name : String} {x : Status} {i : LoggerId}
    (hf : (s.manager m).find? name = some i) (h : s.status? m name = some x) :
    (s.logger i).level = x.level ∧ (s.logger i).appenders.map s.setting = x.appenders := by
  rw [status?, hf] at h
  rw [← Option.some.inj h]
  exact ⟨rfl, rfl⟩

/-- A logger that goes by a definition accepts what the definition does, and its appenders are those
of the definition. -/
theorem lines_of_status {name : String} {d : Definition} {i : LoggerId}
    (hf : (s.manager m).find? name = some i) (h : s.status? m name = some (d.status s.times))
    (level : Level) :
    (s.logger i).accepts level = d.accepts level ∧
      (s.logger i).appenders.isEmpty = d.appenders.isEmpty ∧
      ∀ (printed : String) (e : Event),
        (s.attemptsOf printed level e (s.logger i).appenders).map s.line
          = d.lines s.times printed level e := by
  obtain ⟨hlevel, happ⟩ := status?_eq_some hf h
  refine ⟨?_, ?_, fun printed e => ?_⟩
  · rw [Logger.accepts, hlevel]
    rfl
  · have hlen := congrArg List.isEmpty happ
    rw [List.isEmpty_map] at hlen
    rw [hlen]
    exact List.isEmpty_map
  · rw [line_attemptsOf, happ, d.lines_eq]

/-- The event goes to different appenders that have open sinks, and the lines are those that the
definitions ask for. -/
theorem Configured.receivers (h : s.Configured times ds k m) {name : String} {i : LoggerId}
    (hf : (s.manager m).find? name = some i)
    (hst : s.status? m name = some ((ds.effective name).status times)) (level : Level) (e : Event) :
    (∀ a ∈ s.receivers i level, s.Serves a) ∧ (s.receivers i level).Nodup ∧
      (s.attemptsOf name level e (s.receivers i level)).map s.line
        = ds.lines times name level e := by
  have hroot := h.intact.sound.root m h.intact.lt
  obtain rfl := h.times
  obtain ⟨haccepts, hempty, hlines⟩ := lines_of_status hf hst level
  obtain ⟨haccepts', -, hlines'⟩ := lines_of_status hroot h.root level
  rw [h.intact.sound.receivers hf, Definitions.lines, haccepts, hempty, haccepts']
  have hnone : (∀ a ∈ ([] : List AppenderId), s.Serves a) ∧ ([] : List AppenderId).Nodup ∧
      (s.attemptsOf name level e []).map s.line = [] :=
    ⟨fun a ha => absurd ha List.not_mem_nil, .nil, rfl⟩
  split
  · exact hnone
  · split
    · exact ⟨h.serves hf, h.intact.nodup name i hf, hlines name e⟩
    · split
      · exact ⟨h.serves hroot, h.intact.nodup rootName _ hroot, hlines' name e⟩
      · exact hnone

/-! ## Saying something -/

/-- Hands an event to the logger of a name, which is created if there is none. -/
def say (m : ManagerId) (s : State) (x : Saying) : State :=
  (s.obtain m x.name).1.log (s.obtain m x.name).2 x.level x.event

theorem attempts_obtain (hs : s.facade = none) (m : ManagerId) (name : String) :
    (s.obtain m name).1.attempts = s.attempts := by
  cases hf : (s.manager m).find? name with
  | some i => rw [obtain_of_find hf]
  | none =>
      rw [obtain_of_find_none hf, emit_of_facade_eq_none (s := s.enrol m name) hs]
      rfl

/-- An event that is handed to a logger of the manager is written by those that get it, and nothing
else comes of it. -/
theorem Configured.log (h : s.Configured times ds k m) {name : String} {i : LoggerId}
    (hf : (s.manager m).find? name = some i)
    (hst : s.status? m name = some ((ds.effective name).status times)) (level : Level) (e : Event) :
    ∃ files, s.log i level e = { s with
      files, attempts := s.attempts ++ s.attemptsOf name level e (s.receivers i level) } := by
  obtain ⟨hserves, -, -⟩ := h.receivers hf hst level e
  obtain ⟨files, hlog⟩ := foldl_handOne hserves (fun r s => s.emit r) name level e
  refine ⟨files, ?_⟩
  rw [State.log, logWith, h.intact.sound.name hf, hlog]

/-- Saying something leads to the lines that the definitions ask for, and the loggers go by the
definitions as before. -/
theorem Configured.say (h : s.Configured times ds k m) (x : Saying) :
    (s.say m x).Configured times ds k m ∧
      ∃ new, (s.say m x).attempts = s.attempts ++ new ∧ (∀ a ∈ new, a.taken) ∧
        (new.map (·.appender)).Nodup ∧
        new.map (s.say m x).line = ds.lines times x.name x.level x.event := by
  -- the logger is obtained first, which writes nothing
  have hkept := attempts_obtain h.opened.facade m x.name
  have hf := find_obtain h.intact.lt x.name
  obtain ⟨hc, hst⟩ := h.obtain x.name
  rw [State.say]
  generalize (s.obtain m x.name).1 = t at *
  generalize (s.obtain m x.name).2 = i at *
  obtain ⟨-, hnodup, hlines⟩ := hc.receivers hf hst x.level x.event
  obtain ⟨files, hlog⟩ := hc.log hf hst x.level x.event
  have hset : (t.log i x.level x.event).setup = t.setup := setup_log t i x.level x.event
  rw [hlog] at hset ⊢
  refine ⟨⟨hc.intact.congr hset, hc.opened.of_quiet ⟨rfl, rfl⟩, hc.anew.congr hset, hc.status,
      hc.times⟩,
    t.attemptsOf x.name x.level x.event (t.receivers i x.level), ?_, ?_, ?_, hlines⟩
  · rw [← hkept]
  · intro a ha
    obtain ⟨b, -, rfl⟩ := List.mem_map.1 ha
    rfl
  · rw [appender_attemptsOf]
    exact hnodup.filter _

theorem Configured.foldl_say (h : s.Configured times ds k m) (said : List Saying) :
    (said.foldl (State.say m) s).Configured times ds k m := by
  induction said generalizing s with
  | nil => exact h
  | cons x said ih => exact ih (h.say x).1

/-! ## Configuring a new manager -/

theorem opened_addManager (hs : s.facade = none) : s.addManager.1.Opened s.appenders.size where
  facade := hs
  isOpen a x ha hx := by
    have hx' : (s.appenders.push { sink := .stdout })[a]? = some x := hx
    rw [Array.getElem?_push] at hx'
    split at hx'
    · rw [← Option.some.inj hx']
      rfl
    · rw [Array.getElem?_eq_none ha] at hx'
      cases hx'

theorem anew_addManager : s.addManager.1.Anew s.appenders.size s.managers.size where
  le := by simp [addManager, addLogger, addAppender]
  attached name i hf a ha := by
    rcases find_addManager_cases hf with ⟨-, -, rfl⟩ | ⟨hne, -⟩
    · rw [logger_addManager_self] at ha
      exact Nat.le_of_eq (List.mem_singleton.1 ha).symm
    · exact absurd rfl hne

/-- A plan from the empty set applies each definition. -/
theorem outcome_plan_empty (ds : Definitions) {before : Option Status}
    (hp : before.elim .default (·.pattern) = .default) (name : String) :
    outcome times name (plan .empty ds) before
      = ((ds.get? name).map (·.status times)).or before := by
  cases hg : ds.get? name with
  | some d =>
      obtain ⟨hd, rfl⟩ := Definitions.mem_of_get? hg
      -- the empty set agrees with no definition, so each of them is applied
      have hmem : Action.apply d ∈ plan .empty ds := mem_plan_apply.2 ⟨hd, rfl⟩
      calc outcome times d.name (plan .empty ds) before
          = some ((Action.apply d).result times before) :=
            outcome_of_mem (nodup_plan .empty ds) hmem before
        _ = some (d.status times) := by
            rw [Definition.status, Action.result, Action.result, hp]
            rfl
        _ = ((some d).map (·.status times)).or before := by
            rw [Option.map_some, Option.some_or]
  | none =>
      rw [Option.map_none, Option.none_or]
      refine outcome_of_forall_ne (fun a ha hname => ?_) before
      cases a with
      | apply d =>
          have hd := Definitions.get?_name_of_mem (mem_plan_apply.1 ha).1
          rw [show d.name = name from hname, hg] at hd
          cases hd
      | disable n =>
          obtain ⟨⟨d, hd, -⟩, -⟩ := mem_plan_disable.1 ha
          cases hd

/-- Where no definition fails, each of them tells what its logger goes by in a new manager, and the
other names are as in any new manager. -/
theorem status?_reconcile_empty (hs : s.Sound) (ds : Definitions)
    (hok : (s.addManager.1.reconcile s.managers.size .empty ds).2.failed = []) (name : String) :
    (s.addManager.1.reconcile s.managers.size .empty ds).1.status? s.managers.size name
      = ((ds.get? name).map (·.status s.times)).or
          (s.addManager.1.status? s.managers.size name) := by
  have hi := intact_addManager hs
  obtain ⟨done, hc⟩ := carried_carryOut hi.sound hi.lt (plan .empty ds)
  rw [← reconcile_eq] at hc
  have hdone : done = plan .empty ds := by
    rw [hc.done_eq (nodup_plan .empty ds), Reconciliation.done, Reconciliation.failedNames, hok]
    exact List.filter_eq_self.2 fun _ _ => rfl
  -- in a new manager every logger starts with the default pattern
  have hp : (s.addManager.1.status? s.managers.size name).elim .default (·.pattern)
      = Pattern.default := by
    rw [status?_addManager]
    split <;> rfl
  rw [hc.status? hi.sound hi.unshared, hdone, outcome_plan_empty ds hp]
  rfl

/-- Where no definition fails, the loggers of a new manager go by the definitions. -/
theorem configured_reconcile (hs : s.Sound) (hf : s.facade = none) (ds : Definitions)
    (hok : (s.addManager.1.reconcile s.managers.size .empty ds).2.failed = []) :
    (s.addManager.1.reconcile s.managers.size .empty ds).1.Configured s.times ds s.appenders.size
      s.managers.size := by
  have hi := intact_addManager hs
  obtain ⟨done, hc⟩ := carried_carryOut hi.sound hi.lt (plan .empty ds)
  rw [← reconcile_eq] at hc
  refine ⟨hc.intact hi, ?_, hc.anew hi.sound anew_addManager, fun name => ?_,
    times_reconcile s.addManager.1 _ _ _⟩
  · rw [reconcile_eq]
    exact (opened_addManager hf).carryOut _ _
  · rw [status?_reconcile_empty hs ds hok, Definitions.effective]
    cases hg : ds.get? name with
    | some d => exact .inl rfl
    | none =>
        rw [Option.map_none, Option.none_or, status?_addManager]
        by_cases hname : name = rootName
        · rw [if_pos hname, if_pos hname]
          exact .inl rfl
        · rw [if_neg hname]
          exact .inr ⟨rfl, rfl, hname⟩

/-- What the loggers of a new manager write is computed from the definitions alone. When all
definitions have been applied to it and there is no facade, and whatever has been said since, an
event leads to the lines that the set asks for under the name, each from another appender, and
nothing else is written. -/
theorem say_writes (h : s.Reached) (hf : s.facade = none) (ds : Definitions)
    (hok : (s.addManager.1.reconcile s.managers.size .empty ds).2.failed = [])
    (said : List Saying) (x : Saying) :
    let t := said.foldl (say s.managers.size)
      (s.addManager.1.reconcile s.managers.size .empty ds).1
    ∃ new, (t.say s.managers.size x).attempts = t.attempts ++ new ∧ (∀ a ∈ new, a.taken) ∧
      (new.map (·.appender)).Nodup ∧
      new.map (t.say s.managers.size x).line = ds.lines s.times x.name x.level x.event := by
  have hconf := configured_reconcile (sound_of_reached h) hf ds hok
  exact ((hconf.foldl_say said).say x).2

/-- Definitions of the root and of a logger with a file. -/
def rootAndWeb : Definitions :=
  .ofList [
    { name := rootName, pattern := some "%c: %m", appenders := [{ destination := .stdout }] },
    { name := "web", level := some .info, pattern := some "%m", appenders := [
      { destination := .file "web.log", level := some .warn },
      { destination := .stdout, pattern := some "[%p] %m" }] }]

theorem say_writes_web :
    let s : State := { files := .start [] }
    let t := [Saying.mk "db" .info {}].foldl (say 0)
      (s.addManager.1.reconcile 0 .empty rootAndWeb).1
    (∃ new, (t.say 0 ⟨"web", .warn, { message := "slow" }⟩).attempts = t.attempts ++ new ∧
      new.map (t.say 0 ⟨"web", .warn, { message := "slow" }⟩).line
        = [⟨.file "web.log", "slow"⟩, ⟨.stdout, "[WARN] slow"⟩]) ∧
    (∃ new, (t.say 0 ⟨"app", .debug, { message := "up" }⟩).attempts = t.attempts ++ new ∧
      new.map (t.say 0 ⟨"app", .debug, { message := "up" }⟩).line = [⟨.stdout, "app: up"⟩]) := by
  have hok : ((State.addManager { files := .start [] }).1.reconcile 0 .empty rootAndWeb).2.failed
      = [] := rfl
  have hsay := say_writes (.start (.start []) .universal) rfl rootAndWeb hok [⟨"db", .info, {}⟩]
  obtain ⟨web, hweb, -, -, hlines⟩ := hsay ⟨"web", .warn, { message := "slow" }⟩
  obtain ⟨app, happ, -, -, hlines'⟩ := hsay ⟨"app", .debug, { message := "up" }⟩
  refine ⟨⟨web, hweb, hlines.trans ?_⟩, app, happ, hlines'.trans ?_⟩
  · decide
  · decide

end State

end ConfigLog.Logging
