import ConfigLog.Proofs.Logging.Reach

set_option autoImplicit false

/-! # States that can be asked for

The operations compile every pattern from a text and turn malformed ones down, and they open every
file by a path. So in each state that they lead to (`Attained`) all that a logger or an appender is
set to can be asked for again: the patterns can be compiled from their texts, and no file has the
empty path (`rebuildable_of_attained`).
-/

namespace ConfigLog.Logging

/-! ## Patterns -/

/-- Compiling the text of the pattern gives one that is well formed. -/
def Pattern.Recompiles (times : TimeFormat) (p : Pattern) : Prop :=
  (compile times p.source).malformed = false

variable {times : TimeFormat}

namespace Pattern

theorem recompiles_default : default.Recompiles times := by
  show (compile times defaultSource).malformed = false
  rw [compile_defaultSource]
  rfl

theorem recompiles_compile {source : String} (h : (compile times source).malformed = false) :
    (compile times source).Recompiles times := h

/-- A pattern that an acceptable definition gives can be compiled again. -/
theorem recompiles_of_given {source : Option String} {p : Pattern} (h : acceptable times source)
    (hp : given? times source = some p) : p.Recompiles times := by
  obtain ⟨text, -, rfl⟩ := Option.map_eq_some_iff.1 hp
  have hwell : (!(compile times text).malformed) = true := by
    rw [acceptable, hp] at h
    exact h
  exact recompiles_compile (by simpa using hwell)

end Pattern

/-! ## Settings -/

/-- What an appender is set to can be asked for: a pattern of its own can be compiled again, and its
file does not have the empty path. -/
structure Setting.Rebuildable (times : TimeFormat) (x : Setting) : Prop where
  pattern : x.own = true → x.pattern.Recompiles times
  file : x.destination ≠ .file ""

theorem Setting.rebuildable_of_own_eq_false {x : Setting} (hown : x.own = false)
    (hfile : x.destination ≠ .file "") : x.Rebuildable times where
  pattern h := by
    rw [hown] at h
    cases h
  file := hfile

/-- An appender that goes by the pattern of its logger can take any pattern from it. -/
theorem Setting.Rebuildable.inherit {x : Setting} (h : x.Rebuildable times) (p : Pattern) :
    (x.inherit p).Rebuildable times := by
  unfold Setting.inherit
  by_cases hown : x.own
  · rwa [if_pos hown]
  · rw [if_neg hown]
    exact rebuildable_of_own_eq_false (Bool.eq_false_iff.2 hown) h.file

theorem AppenderDefinition.rebuildable_setting {d : AppenderDefinition}
    (hp : Pattern.acceptable times d.pattern) (hd : d.destination ≠ .file "") (p : Pattern) :
    (d.setting times p).Rebuildable times where
  pattern hown := by
    obtain ⟨q, hq⟩ := Option.isSome_iff_exists.1 hown
    have hset : (d.setting times p).pattern = q := by
      rw [AppenderDefinition.setting, hq]
      rfl
    rw [hset]
    exact Pattern.recompiles_of_given hp hq
  file := hd

namespace State

variable {s t : State} {m : ManagerId}

/-- All that the loggers and the appenders are set to can be asked for. -/
structure Rebuildable (times : TimeFormat) (s : State) : Prop where
  logger : ∀ i, (s.logger i).pattern.Recompiles times
  setting : ∀ a, (s.setting a).Rebuildable times
  times : s.times = times

namespace Rebuildable

theorem congr (hs : s.Rebuildable times) (h : t.setup = s.setup) : t.Rebuildable times where
  times := (times_congr h).trans hs.times
  logger i := by
    rw [logger_congr h]
    exact hs.logger i
  setting a := by
    rw [setting_congr h]
    exact hs.setting a

/-! ## Loggers -/

theorem modifyLogger (hs : s.Rebuildable times) (i : LoggerId) {f : Logger → Logger}
    (hf : ∀ l, l.pattern.Recompiles times → (f l).pattern.Recompiles times) :
    (s.modifyLogger i f).Rebuildable times where
  times := hs.times
  logger j := by
    rcases logger_modifyLogger s i j f with h | h <;> rw [h]
    · exact hs.logger j
    · exact hf _ (hs.logger j)
  setting := hs.setting

theorem setLevel (hs : s.Rebuildable times) (i : LoggerId) (level : Level) :
    (s.setLevel i level).Rebuildable times :=
  hs.modifyLogger i fun _ h => h

theorem clearAppenders (hs : s.Rebuildable times) (i : LoggerId) :
    (s.clearAppenders i).Rebuildable times :=
  hs.modifyLogger i fun _ h => h

theorem detach (hs : s.Rebuildable times) (i : LoggerId) (a : AppenderId) :
    (s.detach i a).1.Rebuildable times :=
  hs.modifyLogger i fun _ h => h

theorem addLogger (hs : s.Rebuildable times) {l : Logger} (hl : l.pattern.Recompiles times) :
    (s.addLogger l).1.Rebuildable times where
  times := hs.times
  logger i := by
    rw [logger_addLogger]
    split
    · exact hl
    · exact hs.logger i
  setting := hs.setting

/-- Who has which logger is of no account. -/
theorem of_managers (hs : s.Rebuildable times) (managers : Array Manager) :
    { s with managers }.Rebuildable times :=
  ⟨hs.logger, hs.setting, hs.times⟩

theorem obtain (hs : s.Rebuildable times) (m : ManagerId) (name : String) :
    (s.obtain m name).1.Rebuildable times := by
  cases hf : (s.manager m).find? name with
  | some i => rwa [obtain_of_find hf]
  | none =>
      have hnew : (s.addLogger { name, fallback := some (s.manager m).root }).1.Rebuildable times :=
        hs.addLogger Pattern.recompiles_default
      have henrolled : (s.enrol m name).Rebuildable times := hnew.of_managers _
      rw [obtain_of_find_none hf]
      exact henrolled.congr (setup_emit _ _)

/-! ## Appenders -/

theorem modifyAppender (hs : s.Rebuildable times) (a : AppenderId) {f : Appender → Appender}
    (hf : ∀ x, s.appenders[a]? = some x → (f x).setting.Rebuildable times) :
    (s.modifyAppender a f).Rebuildable times where
  times := hs.times
  logger := hs.logger
  setting b := by
    rcases setting_modifyAppender_cases s a f b with h | ⟨x, -, hx, h⟩ <;> rw [h]
    · exact hs.setting b
    · exact hf x hx

theorem inherit (hs : s.Rebuildable times) (a : AppenderId) (p : Pattern) :
    (s.modifyAppender a (·.inherit p)).Rebuildable times := by
  refine hs.modifyAppender a fun x hx => ?_
  rw [Appender.setting_inherit, ← setting_of_getElem? hx]
  exact (hs.setting a).inherit p

theorem addAppender (hs : s.Rebuildable times) {x : Appender} (hx : x.setting.Rebuildable times) :
    (s.addAppender x).1.Rebuildable times where
  times := hs.times
  logger := hs.logger
  setting a := by
    rw [setting_addAppender]
    split
    · exact hx
    · exact hs.setting a

theorem attach (hs : s.Rebuildable times) (i : LoggerId) (a : AppenderId) :
    (s.attach i a).Rebuildable times :=
  (hs.inherit a _).modifyLogger i fun _ h => h

theorem adoptPattern (hs : s.Rebuildable times) (i : LoggerId) {p : Pattern}
    (hp : p.Recompiles times) :
    (s.adoptPattern i p).Rebuildable times :=
  adoptPattern_keeps (hs.modifyLogger i fun _ _ => hp) fun _ a hu => hu.inherit a p

/-- A logger takes no pattern that is malformed. -/
theorem setPattern (hs : s.Rebuildable times) (i : LoggerId) (source : String) :
    (s.setPattern i (.compile times source)).1.Rebuildable times := by
  unfold State.setPattern
  split
  · exact hs.congr (setup_emit _ _)
  · rename_i hm
    exact hs.adoptPattern i (Pattern.recompiles_compile (Bool.eq_false_iff.2 hm))

theorem setAppenderLevel (hs : s.Rebuildable times) (a : AppenderId) (level : Level) :
    (s.setAppenderLevel a level).Rebuildable times := by
  refine hs.modifyAppender a fun x hx => ?_
  have h := hs.setting a
  rw [setting_of_getElem? hx] at h
  exact ⟨h.pattern, h.file⟩

/-- An appender takes no pattern that is malformed. -/
theorem setAppenderPattern (hs : s.Rebuildable times) (a : AppenderId) (source : String) :
    (s.setAppenderPattern a (.compile times source)).1.Rebuildable times := by
  unfold State.setAppenderPattern Appender.setPattern
  split
  · exact hs
  · rename_i x hx
    have hset : s.setting a = x.setting := setting_of_getElem? hx
    by_cases hm : (Pattern.compile times source).malformed
    · rw [if_pos hm]
      exact hs
    · rw [if_neg hm]
      refine hs.modifyAppender a fun _ _ => ⟨fun _ => ?_, ?_⟩
      · exact Pattern.recompiles_compile (Bool.eq_false_iff.2 hm)
      · have hfile := (hs.setting a).file
        rwa [hset] at hfile

end Rebuildable

/-! ## New sinks -/

/-- A sink that could be opened is not a file under the empty path. -/
theorem destination_of_openSink {d : Destination} {sink : Sink}
    (h : (s.openSink d).2 = .ok sink) : sink.destination ≠ .file "" := by
  rw [openSink_destination h]
  rintro rfl
  have hok : (s.openSink (.file "")).2.isOk = false := by
    rw [isOk_openSink_file]
    exact Files.Store.isOk_openAppend_empty s.files
  rw [h] at hok
  cases hok

theorem Rebuildable.newAppender (hs : s.Rebuildable times) (d : Destination) :
    (s.newAppender d).1.Rebuildable times := by
  rcases newAppender_cases s d with h | ⟨u, sink, h, hsink, hnew⟩
  · exact hs.congr h
  · rw [hnew]
    exact (hs.congr h).addAppender
      (Setting.rebuildable_of_own_eq_false rfl (destination_of_openSink hsink))

/-! ## Reconciliation -/

theorem rebuildable_of_built {x : Appender} (hx : x.Built times) : x.setting.Rebuildable times := by
  obtain ⟨s, d, rfl, h⟩ := hx
  rw [build_setting h]
  rw [build_eq] at h
  obtain ⟨p, hp, h⟩ := andThen_eq_ok h
  obtain ⟨sink, hsink, -⟩ := andThen_eq_ok h
  -- both the pattern and the file have been tried before the appender was built
  have hacceptable : Pattern.acceptable s.times d.pattern := by
    rw [← (definedPattern_snd s d.pattern).1, hp]
    rfl
  have hfile : d.destination ≠ .file "" := by
    rw [← openSink_destination hsink]
    exact destination_of_openSink hsink
  exact d.rebuildable_setting hacceptable hfile .default

namespace Rebuildable

theorem install (hs : s.Rebuildable times) (i : LoggerId) {p : Option Pattern}
    (hp : ∀ q, p = some q → q.Recompiles times) (level : Level) {xs : List Appender}
    (hxs : ∀ x ∈ xs, x.setting.Rebuildable times) : (s.install i p level xs).Rebuildable times := by
  refine install_keeps_of_steps hs (fun q hq => ?_) (fun u hu => ?_) fun u x hx hu => ?_
  · exact hs.adoptPattern i (hp q hq)
  · exact (hu.setLevel i level).clearAppenders i
  · exact (hu.addAppender (hxs x hx)).attach i _

theorem reconcile (hs : s.Rebuildable times) (m : ManagerId) (old new : Definitions) :
    (s.reconcile m old new).1.Rebuildable times := by
  refine reconcile_keeps hs (fun _ _ h hu => hu.congr h) (fun _ name hu => hu.obtain m name)
    (fun _ i hu => (hu.setLevel i .off).clearAppenders i) (fun _ i source level xs hp hxs hu => ?_)
    old new
  rw [hu.times] at hp hxs ⊢
  exact hu.install i (fun _ hq => Pattern.recompiles_of_given hp hq) level
    fun x hx => rebuildable_of_built (hxs x hx)

end Rebuildable

/-! ## New managers -/

theorem rebuildable_start (files : Files.Store) (times : TimeFormat) :
    ({ files, times } : State).Rebuildable times where
  times := rfl
  logger _ := Pattern.recompiles_default
  setting _ := Setting.rebuildable_of_own_eq_false rfl Destination.noConfusion

theorem Rebuildable.addManager (hs : s.Rebuildable times) : s.addManager.1.Rebuildable times := by
  have happender : (s.addAppender { sink := .stdout }).1.Rebuildable times :=
    hs.addAppender (Setting.rebuildable_of_own_eq_false rfl Destination.noConfusion)
  have hroot := happender.addLogger (l := { name := rootName, appenders := [s.appenders.size] })
    Pattern.recompiles_default
  exact hroot.of_managers _

/-! ## All operations -/

/-- The states that the operations lead to from one without managers, whatever else happens to the
files meanwhile. Appenders are created by the operations or stand for sinks of the program around,
and patterns are given as texts. -/
inductive Attained (times : TimeFormat) : State → Prop
  | start (files : Files.Store) : Attained times { files, times }
  /-- The files change by themselves, and time passes. -/
  | meanwhile {s : State} (h : Attained times s) (files : Files.Store) (stamp : Stamp) :
      Attained times { s with files, stamp }
  | facade {s : State} (h : Attained times s) (facade : Option ManagerId) :
    Attained times { s with facade }
  | addManager {s : State} (h : Attained times s) : Attained times s.addManager.1
  | addLogger {s : State} (h : Attained times s) (name : String) :
    Attained times (s.addLogger { name }).1
  | newAppender {s : State} (h : Attained times s) (d : Destination) :
    Attained times (s.newAppender d).1
  | addCustom {s : State} (h : Attained times s) (broken : Option String) :
      Attained times (s.addAppender { sink := .custom, broken }).1
  | setBroken {s : State} (h : Attained times s) (a : AppenderId) (broken : Option String) :
      Attained times (s.setBroken a broken)
  | setAppenderLevel {s : State} (h : Attained times s) (a : AppenderId) (level : Level) :
      Attained times (s.setAppenderLevel a level)
  | setAppenderPattern {s : State} (h : Attained times s) (a : AppenderId) (source : String) :
      Attained times (s.setAppenderPattern a (.compile times source)).1
  | reopen {s : State} (h : Attained times s) (a : AppenderId) : Attained times (s.reopen a).1
  | obtain {s : State} {m : Nat} (h : Attained times s) (hm : m < s.managers.size) (name : String) :
      Attained times (s.obtain m name).1
  | setLevel {s : State} (h : Attained times s) (i : LoggerId) (level : Level) :
      Attained times (s.setLevel i level)
  | setPattern {s : State} (h : Attained times s) (i : LoggerId) (source : String) :
      Attained times (s.setPattern i (.compile times source)).1
  | attach {s : State} {a : Nat} (h : Attained times s) (i : LoggerId) (ha : a < s.appenders.size) :
      Attained times (s.attach i a)
  | detach {s : State} (h : Attained times s) (i : LoggerId) (a : AppenderId) :
      Attained times (s.detach i a).1
  | clearAppenders {s : State} (h : Attained times s) (i : LoggerId) :
    Attained times (s.clearAppenders i)
  | emit {s : State} (h : Attained times s) (r : Record) : Attained times (s.emit r)
  | log {s : State} (h : Attained times s) (i : LoggerId) (level : Level) (e : Event) :
      Attained times (s.log i level e)
  | reconcile {s : State} {m : Nat} (h : Attained times s) (hm : m < s.managers.size)
      (old new : Definitions) : Attained times (s.reconcile m old new).1

/-- What the operations lead to is among what anything at all leads to. -/
theorem reached_of_attained (h : Attained times s) : Reached s := by
  induction h with
  | start files => exact .start files times
  | meanwhile _ files stamp ih => exact ih.meanwhile files stamp
  | facade _ facade ih => exact ih.facade facade
  | addManager _ ih => exact ih.addManager
  | addLogger _ name ih => exact ih.addLogger name
  | newAppender _ d ih => exact ih.newAppender d
  | addCustom _ broken ih => exact ih.addAppender _
  | setBroken _ a broken ih => exact ih.modifyAppender a _
  | setAppenderLevel _ a level ih => exact ih.modifyAppender a _
  | setAppenderPattern _ a source ih => exact ih.setAppenderPattern a _
  | reopen _ a ih => exact ih.reopen a
  | obtain _ hm name ih => exact ih.obtain hm name
  | setLevel _ i level ih => exact ih.setLevel i level
  | setPattern _ i source ih => exact ih.setPattern i _
  | attach _ i ha ih => exact ih.attach i ha
  | detach _ i a ih => exact ih.detach i a
  | clearAppenders _ i ih => exact ih.clearAppenders i
  | emit _ r ih => exact ih.emit r
  | log _ i level e ih => exact ih.log i level e
  | reconcile _ hm old new ih => exact ih.reconcile hm old new

/-- All that the operations set up can be asked for again. -/
theorem rebuildable_of_attained (h : Attained times s) : s.Rebuildable times := by
  induction h with
  | start files => exact rebuildable_start files times
  | meanwhile _ files stamp ih => exact ⟨ih.logger, ih.setting, ih.times⟩
  | facade _ facade ih => exact ⟨ih.logger, ih.setting, ih.times⟩
  | addManager _ ih => exact ih.addManager
  | addLogger _ name ih => exact ih.addLogger Pattern.recompiles_default
  | newAppender _ d ih => exact ih.newAppender d
  | addCustom _ broken ih =>
      exact ih.addAppender (Setting.rebuildable_of_own_eq_false rfl Destination.noConfusion)
  | setBroken _ a broken ih => exact ih.congr (setup_setBroken _ a broken)
  | setAppenderLevel _ a level ih => exact ih.setAppenderLevel a level
  | setAppenderPattern _ a source ih => exact ih.setAppenderPattern a source
  | reopen _ a ih => exact ih.congr (setup_reopen _ a)
  | obtain _ _ name ih => exact ih.obtain _ name
  | setLevel _ i level ih => exact ih.setLevel i level
  | setPattern _ i source ih => exact ih.setPattern i source
  | attach _ i _ ih => exact ih.attach i _
  | detach _ i a ih => exact ih.detach i a
  | clearAppenders _ i ih => exact ih.clearAppenders i
  | emit _ r ih => exact ih.congr (setup_emit _ r)
  | log _ i level e ih => exact ih.congr (setup_log _ i level e)
  | reconcile _ _ old new ih => exact ih.reconcile _ old new

end State

end ConfigLog.Logging
