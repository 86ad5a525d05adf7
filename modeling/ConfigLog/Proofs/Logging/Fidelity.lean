import ConfigLog.Proofs.Logging.Attained
import ConfigLog.Proofs.Logging.Encoding
import ConfigLog.Proofs.Logging.Meaning

set_option autoImplicit false

/-! # Exported definitions build the same loggers again

What a manager exports can be written to a tree, read back and applied to a new manager, and this
exports the same again, save for patterns that are empty (`export_rebuilds`); a logger with a blank
name is the one thing that is not read back. Both do happen (`rebuilds_eq_false`).
-/

namespace ConfigLog.Logging

variable {times : TimeFormat}

/-! ## What is exported again -/

theorem Pattern.given?_some {source : String} (h : source ≠ "") :
    given? times (some source) = some (compile times source) := by
  rw [given?, filter_ne_empty_iff.2 (by simpa using h)]
  rfl

/-- The pattern that is exported for a logger comes back, unless it is empty. -/
theorem Pattern.exported_given (times : TimeFormat) (p : Pattern) :
    ((given? times p.exported).getD .default).exported = p.exported.filter (· != "") := by
  unfold Pattern.exported
  by_cases hdefault : p.source == defaultSource
  · -- the default pattern is not exported, and a new logger has it anyway
    rw [if_pos hdefault]
    rfl
  · rw [if_neg hdefault]
    by_cases hempty : p.source = ""
    · rw [hempty]
      rfl
    · rw [given?_some hempty, Option.getD_some, filter_ne_empty_iff.2 (by simpa using hempty)]
      exact if_neg hdefault

theorem AppenderDefinition.exported_pruned {a : AppenderDefinition} (h : a.level.isSome) :
    a.pruned.exported = a.pruned := by
  obtain ⟨destination, level, pattern⟩ := a
  cases level with
  | none => cases h
  | some l =>
      simp only [exported, pruned, Option.getD_some, filter_filter_ne_empty]

/-- A logger that goes by an exported definition exports it again, without empty patterns. -/
theorem Status.definition_reread (times : TimeFormat) (x : Status) (name : String) :
    ((x.definition name).reread.status times).definition name = (x.definition name).pruned := by
  have happenders : (x.definition name).reread.appenders.map (·.exported)
      = (x.definition name).reread.appenders := by
    refine map_eq_self_iff.2 fun a ha => ?_
    obtain ⟨b, hb, rfl⟩ := List.mem_map.1 ha
    obtain ⟨y, -, rfl⟩ := List.mem_map.1 hb
    exact AppenderDefinition.exported_pruned rfl
  have hpattern : ((Action.apply (x.definition name).reread).pattern times .default).exported
      = (x.definition name).pruned.pattern := x.pattern.exported_given times
  rw [Definition.status, Action.result, definition_status_apply, happenders]
  show Definition.mk name _
    ((Action.apply (x.definition name).reread).pattern times .default).exported _ = _
  rw [hpattern]
  rfl

/-! ## What can be built again -/

theorem Pattern.acceptable_filter (source : Option String) :
    acceptable times (source.filter (· != "")) = acceptable times source := by
  rw [acceptable, acceptable, given?, given?, filter_filter_ne_empty]

theorem Pattern.acceptable_of_recompiles {p : Pattern} (h : p.Recompiles times) :
    acceptable times (some p.source) := by
  have hwell : (compile times p.source).malformed = false := h
  by_cases hempty : p.source = ""
  · rw [hempty]
    rfl
  · rw [acceptable, given?_some hempty, Option.all_some, hwell]
    rfl

theorem Pattern.acceptable_exported {p : Pattern} (h : p.Recompiles times) :
    acceptable times p.exported := by
  unfold Pattern.exported
  split
  · rfl
  · exact acceptable_of_recompiles h

theorem Setting.Rebuildable.acceptable {x : Setting} (h : x.Rebuildable times) :
    Pattern.acceptable times x.definition.pattern := by
  by_cases hown : x.own
  · rw [show x.definition.pattern = some x.pattern.source from if_pos hown]
    exact Pattern.acceptable_of_recompiles (h.pattern hown)
  · rw [show x.definition.pattern = none from if_neg hown]
    rfl

/-- Where all files can be opened, what is set up can be built from its definition. -/
theorem Status.buildable_reread {x : Status} (hp : x.pattern.Recompiles times)
    (hx : ∀ y ∈ x.appenders, y.Rebuildable times) (name : String) :
    (x.definition name).reread.buildable times fun _ => true := by
  have happenders : ∀ a ∈ (x.definition name).reread.appenders,
      a.buildable times fun _ => true := by
    intro a ha
    obtain ⟨b, hb, rfl⟩ := List.mem_map.1 ha
    obtain ⟨y, hy, rfl⟩ := List.mem_map.1 hb
    have hpattern : Pattern.acceptable times y.definition.pruned.pattern := by
      rw [AppenderDefinition.pruned, Pattern.acceptable_filter]
      exact (hx y hy).acceptable
    rw [AppenderDefinition.buildable, hpattern]
    cases y.definition.pruned.destination <;> rfl
  rw [Definition.buildable, Bool.and_eq_true, List.all_eq_true]
  exact ⟨Pattern.acceptable_exported hp, happenders⟩

namespace Definitions

/-- Reading a set back changes nothing about the files. -/
theorem names_reread (ds : Definitions) : ds.reread.Names = ds.Names := by
  funext path
  refine propext ⟨?_, ?_⟩
  · rintro ⟨d, hd, a, ha, hpath⟩
    obtain ⟨e, he, rfl⟩ := List.mem_map.1 hd
    obtain ⟨b, hb, rfl⟩ := List.mem_map.1 ha
    exact ⟨e, he, b, hb, hpath⟩
  · rintro ⟨d, hd, a, ha, hpath⟩
    exact ⟨d.reread, List.mem_map_of_mem hd, a.pruned, List.mem_map_of_mem ha, hpath⟩

end Definitions

namespace State

variable {s u : State} {m : Nat} {ds : Definitions}

/-! ## Members of what is exported -/

/-- An appender has the file of a path. -/
def Names (s : State) (path : String) : Prop := ∃ a, (s.setting a).destination = .file path

theorem status?_of_mem_definitions (hs : s.Sound) {d : Definition}
    (hd : d ∈ (s.definitions m).toList) :
    ∃ x, s.status? m d.name = some x ∧ x.definition d.name = d := by
  have hget := Definitions.get?_name_of_mem hd
  rw [get?_definitions hs] at hget
  exact Option.map_eq_some_iff.1 hget

/-- What a logger goes by is what it and its appenders are set to. -/
theorem status_cases {name : String} {x : Status} (h : s.status? m name = some x) :
    (∃ i, (s.logger i).pattern = x.pattern) ∧ ∀ y ∈ x.appenders, ∃ a, s.setting a = y := by
  obtain ⟨i, -, rfl⟩ := Option.map_eq_some_iff.1 h
  refine ⟨⟨i, rfl⟩, fun y hy => ?_⟩
  obtain ⟨a, -, ha⟩ := List.mem_map.1 hy
  exact ⟨a, ha⟩

/-- The files that are exported are files of appenders. -/
theorem names_of_names_definitions (hs : s.Sound) {path : String}
    (h : (s.definitions m).Names path) : s.Names path := by
  obtain ⟨d, hd, a, ha, hpath⟩ := h
  obtain ⟨x, hx, hdef⟩ := status?_of_mem_definitions hs hd
  rw [← hdef] at ha
  obtain ⟨y, hy, rfl⟩ := List.mem_map.1 ha
  obtain ⟨b, rfl⟩ := (status_cases hx).2 y hy
  exact ⟨b, hpath⟩

/-- All that is exported can be built once it has been read back. -/
theorem Rebuildable.buildable_reread (hr : s.Rebuildable times) (hs : s.Sound) :
    ∀ d ∈ (s.definitions m).reread.toList, d.buildable times fun _ => true := by
  intro d hd
  obtain ⟨e, he, rfl⟩ := List.mem_map.1 hd
  obtain ⟨x, hx, hdef⟩ := status?_of_mem_definitions hs he
  obtain ⟨⟨i, hi⟩, happenders⟩ := status_cases hx
  rw [← hdef]
  refine Status.buildable_reread (hi ▸ hr.logger i) (fun y hy => ?_) _
  obtain ⟨a, rfl⟩ := happenders y hy
  exact hr.setting a

/-! ## Building again -/

/-- Each file that a set of definitions names can be opened, whatever comes before of opening and
writing these files and those of the appenders that are there. -/
def Opens (u : State) (ds : Definitions) : Prop :=
  u.files.SettledOn (fun path => u.Names path ∨ ds.Names path) ds.Names fun _ => true

/-- Definitions that can be built and whose files can be opened do not fail in a new manager. -/
theorem failed_reconcile_empty (ho : u.Opens ds)
    (hd : ∀ d ∈ ds.toList, d.buildable u.times fun _ => true) :
    (u.addManager.1.reconcile u.managers.size .empty ds).2.failed = [] := by
  have hwithin : u.addManager.1.Within fun path => u.Names path ∨ ds.Names path := by
    have hu : u.Within fun path => u.Names path ∨ ds.Names path :=
      fun a path hpath => .inl ⟨a, hpath⟩
    -- the appender that a new manager starts with has no file
    exact hu.addAppender fun _ hpath => Destination.noConfusion hpath
  have hplan : ∀ a ∈ plan .empty ds, a.Within ds.Names ∧ a.buildable u.times fun _ => true := by
    intro a ha
    cases a with
    | apply d =>
        have hmem := (mem_plan_apply.1 ha).1
        exact ⟨fun x hx path hpath => ⟨d, hmem, x, hx, hpath⟩, hd d hmem⟩
    | disable name => exact ⟨trivial, rfl⟩
  have hfailed := failedNames_carryOut_of_settledOn (s := u.addManager.1)
    (m := u.managers.size) ho (fun _ => .inr) hwithin fun a ha => (hplan a ha).1
  have hnone : (plan .empty ds).filter (!·.buildable u.times fun _ => true) = [] := by
    refine List.filter_eq_nil_iff.2 fun a ha => ?_
    rw [(hplan a ha).2]
    exact Bool.false_ne_true
  rw [← reconcile_eq, times_addManager, hnone] at hfailed
  exact List.map_eq_nil_iff.1 hfailed

/-- A new manager that has been built from what another one exports does the same. -/
theorem definitions_reconcile_reread (hs : s.Sound) (hm : m < s.managers.size) (hu : u.Sound)
    (hok : (u.addManager.1.reconcile u.managers.size .empty (s.definitions m).reread).2.failed
      = []) :
    (u.addManager.1.reconcile u.managers.size .empty (s.definitions m).reread).1.definitions
      u.managers.size = (s.definitions m).pruned := by
  have hnew : u.managers.size < u.addManager.1.managers.size := by
    simp [addManager, addLogger, addAppender]
  have ht := hu.addManager.reconcile hnew .empty (s.definitions m).reread
  refine Definitions.ext_get? fun name => ?_
  rw [get?_definitions ht, status?_reconcile_empty hu _ hok, Definitions.get?_reread,
    Definitions.get?_pruned, get?_definitions hs]
  cases hx : s.status? m name with
  | some x => exact congrArg some (x.definition_reread u.times name)
  | none =>
      -- the root has a definition, so a name without one is not that of the new root
      have hroot : name ≠ rootName := by
        rintro rfl
        rw [status?, hs.root m hm] at hx
        cases hx
      rw [Option.map_none, Option.map_none, Option.map_none, Option.none_or, status?_addManager,
        if_neg hroot]
      rfl

/-- Where all files of appenders can be opened again, those of the definitions can. -/
theorem opens_definitions (hs : s.Sound)
    (h : s.files.SettledOn s.Names s.Names fun _ => true) : s.Opens (s.definitions m) := by
  have hnames : (fun path => s.Names path ∨ (s.definitions m).Names path) = s.Names := by
    funext path
    exact propext ⟨fun hp => hp.elim id (names_of_names_definitions hs), .inl⟩
  rw [Opens, hnames]
  exact fun files hfiles path hp => h files hfiles path (names_of_names_definitions hs hp)

/-- Definitions that name no file need none to be opened. -/
theorem opens_of_stdout (h : ∀ d ∈ ds.toList, ∀ a ∈ d.appenders, a.destination = .stdout) :
    u.Opens ds := by
  rintro files - path ⟨d, hd, a, ha, hpath⟩
  rw [h d hd a ha] at hpath
  cases hpath

/-- What a manager exports can be written to a tree and read back unless a logger has a blank name.
What is read back can be applied to a new manager, in the same state or in another one that writes
times alike and can open the files. No definition fails, and both managers export the same when an
empty pattern counts as none; without empty patterns they export the same altogether. -/
theorem export_rebuilds (h : s.Attained times) (hm : m < s.managers.size) (hu : u.Reached)
    (ht : u.times = times) (ho : u.Opens (s.definitions m)) :
    ((∀ d ∈ (s.definitions m).toList, Text.isBlankText d.name = false) →
      ∃ ds, Definitions.ofNode (s.definitions m).toNode = .ok ds ∧
        let done := u.addManager.1.reconcile u.managers.size .empty ds
        done.2.failed = [] ∧
          (done.1.definitions u.managers.size).pruned = (s.definitions m).pruned ∧
          ((∀ d ∈ (s.definitions m).toList, d.WithoutEmpty) →
            done.1.definitions u.managers.size = s.definitions m)) ∧
    ((∃ d ∈ (s.definitions m).toList, Text.isBlankText d.name = true) →
      Definitions.ofNode (s.definitions m).toNode = .error .nameless) := by
  have hs := sound_of_reached (reached_of_attained h)
  have hr := rebuildable_of_attained h
  have hnames : ¬ (s.definitions m).Names "" := by
    intro hempty
    obtain ⟨a, ha⟩ := names_of_names_definitions hs hempty
    exact (hr.setting a).file ha
  have hread := Definitions.ofNode_toNode hnames
  refine ⟨fun hblank => ?_, fun hblank => ?_⟩
  · have hnone : ((s.definitions m).toList.any fun d => Text.isBlankText d.name) = false := by
      simpa [List.any_eq_false] using hblank
    rw [hnone, if_neg Bool.false_ne_true] at hread
    -- reading back leaves the files as they are, so they can be opened
    have hopens : u.Opens (s.definitions m).reread := by
      rw [Opens, Definitions.names_reread]
      exact ho
    have hok := failed_reconcile_empty hopens (ht.symm ▸ hr.buildable_reread hs)
    have hsame := definitions_reconcile_reread hs hm (sound_of_reached hu) hok
    refine ⟨_, hread, hok, ?_, fun hfull => ?_⟩
    · rw [hsame, Definitions.pruned_pruned]
    · rw [hsame, Definitions.pruned_eq_self hfull]
  · have hsome : ((s.definitions m).toList.any fun d => Text.isBlankText d.name) = true :=
      List.any_eq_true.2 hblank
    rw [hread, if_pos hsome]

/-- A state with one new manager. -/
def single : State := (addManager { files := .start [] }).1

theorem attained_single : single.Attained .universal := .addManager (.start _)

/-- A manager with a logger on a file, whose appender has a level and a pattern of its own, and with
a logger that is switched off. -/
def webAndIdle : State :=
  let s := ((single.obtain 0 "web").1.newAppender (.file "web.log")).1
  let s := (s.setAppenderPattern 1 (.compile .universal "[%p] %m%n")).1.setAppenderLevel 1 .warn
  let s := (s.setPattern 1 (.compile .universal "%m%n")).1.attach 1 1
  ((s.setLevel 1 .info).obtain 0 "idle").1.setLevel 2 .off

theorem attained_webAndIdle : webAndIdle.Attained .universal := by
  have hweb := (attained_single.obtain (m := 0) (by decide) "web").newAppender (.file "web.log")
  have hown := (hweb.setAppenderPattern 1 "[%p] %m%n").setAppenderLevel 1 .warn
  have hattached := (hown.setPattern 1 "%m%n").attach (a := 1) 1 (by decide)
  exact ((hattached.setLevel 1 .info).obtain (m := 0) (by decide) "idle").setLevel 2 .off

theorem names_webAndIdle {path : String} (h : webAndIdle.Names path) : path = "web.log" := by
  obtain ⟨a, ha⟩ := h
  match a, ha with
  | 0, ha => cases ha
  | 1, ha => exact (Destination.file.inj ha).symm
  | a + 2, ha => cases ha

/-- The only file is in the working directory, where no directory has its name. -/
theorem opens_webAndIdle : webAndIdle.Opens (webAndIdle.definitions 0) := by
  have hbare : Files.Store.Bare "web.log" "web.log" := ⟨rfl, by decide, by decide, by decide⟩
  refine opens_definitions (sound_of_reached (reached_of_attained attained_webAndIdle)) ?_
  refine Files.Store.settledOn_of_clear ⟨fun _ _ _ => rfl, fun path name hp hb i hi => ?_⟩
    fun path hp => ⟨"web.log", names_webAndIdle hp ▸ hbare⟩
  obtain rfl := names_webAndIdle hp
  obtain rfl : name = "web.log" := by
    have hc := hb.components.symm.trans hbare.components
    simpa using hc
  have hnode : webAndIdle.files.node? ["web.log"] = some 1 := by decide
  obtain rfl : i = 1 := Option.some.inj (hi.symm.trans hnode)
  decide

theorem export_rebuilds_webAndIdle :
    ∃ ds, Definitions.ofNode (webAndIdle.definitions 0).toNode = .ok ds ∧
      (webAndIdle.addManager.1.reconcile 1 .empty ds).2.failed = [] ∧
      (webAndIdle.addManager.1.reconcile 1 .empty ds).1.definitions 1 = webAndIdle.definitions 0 ∧
      (webAndIdle.definitions 0).toList = [
        { name := "idle", level := some .off },
        { name := rootName, level := some .debug
          appenders := [{ destination := .stdout, level := some .debug }] },
        { name := "web", level := some .info, pattern := some "%m%n", appenders := [{
            destination := .file "web.log", level := some .warn
            pattern := some "[%p] %m%n" }] }] := by
  have hreached := reached_of_attained attained_webAndIdle
  obtain ⟨hbuilds, -⟩ := export_rebuilds (m := 0) attained_webAndIdle (by decide) hreached
    rfl opens_webAndIdle
  obtain ⟨ds, hread, hok, -, hsame⟩ := hbuilds (by decide)
  refine ⟨ds, hread, hok, hsame ?_, by decide⟩
  unfold Definition.WithoutEmpty
  decide

/-! ## What is not built again -/

/-- Whether what a manager exports can be read back from its tree and leads to a new manager that
exports the same. -/
def rebuilds (s : State) (m : ManagerId) : Bool :=
  match Definitions.ofNode (s.definitions m).toNode with
  | .error _ => false
  | .ok ds =>
    let (t, report) := s.addManager.1.reconcile s.managers.size .empty ds
    report.failed.isEmpty && (t.definitions s.managers.size).same (s.definitions m)

/-- A manager with a logger that has an empty pattern. -/
def muteLogger : State := ((single.obtain 0 "x").1.setPattern 1 (.compile .universal "")).1

/-- A manager with an appender that has an empty pattern of its own. -/
def muteAppender : State :=
  let s := ((single.obtain 0 "x").1.newAppender .stdout).1
  (s.setAppenderPattern 1 (.compile .universal "")).1.attach 1 1

/-- A manager with a logger that has a blank name. -/
def blankLogger : State := (single.obtain 0 " ").1

/-- An empty pattern is not exported again, be it that of a logger or that of an appender, and a
blank name is not read back. -/
theorem rebuilds_eq_false :
    (muteLogger.Attained .universal ∧ muteLogger.Opens (muteLogger.definitions 0) ∧
      muteLogger.rebuilds 0 = false) ∧
    (muteAppender.Attained .universal ∧ muteAppender.Opens (muteAppender.definitions 0) ∧
      muteAppender.rebuilds 0 = false) ∧
    (blankLogger.Attained .universal ∧ blankLogger.Opens (blankLogger.definitions 0) ∧
      blankLogger.rebuilds 0 = false) := by
  have hlogger := attained_single.obtain (m := 0) (by decide) "x"
  refine ⟨⟨hlogger.setPattern 1 "", opens_of_stdout (by decide), by decide⟩, ⟨?_, ?_, by decide⟩,
    attained_single.obtain (by decide) " ", opens_of_stdout (by decide), by decide⟩
  · exact ((hlogger.newAppender .stdout).setAppenderPattern 1 "").attach 1 (by decide)
  · exact opens_of_stdout (by decide)

end State

end ConfigLog.Logging
