import ConfigLog.Proofs.Logging.Fidelity

set_option autoImplicit false

/-! # Normal forms of sets of definitions

Many sets of definitions ask for the same loggers: a level may be given or left to its default, and a
pattern may be absent, empty or the default one. The normal form of a set says what there is to say
in one way, and it tells of the root in any case. It is what a new manager exports once the set has
been applied to it, and building from it changes nothing any more (`definitions_eq_normal`).
-/

namespace ConfigLog.Logging

/-! ## Normal forms -/

/-- The definition with all levels given. It has a pattern only if that is neither empty nor the
default one, and its appenders have theirs only if they are not empty. -/
def Definition.normal (d : Definition) : Definition where
  name := d.name
  level := some (d.level.getD .debug)
  pattern := d.pattern.filter fun p => p != "" && p != Pattern.defaultSource
  appenders := d.appenders.map (·.exported)

/-- The definition of a root that nobody has changed. -/
def rootDefinition : Definition where
  name := rootName
  level := some .debug
  appenders := [{ destination := .stdout, level := some .debug }]

/-- The normal forms of the definitions, and the definition of an unchanged root if there is none
for the root. -/
def Definitions.normal (ds : Definitions) : Definitions :=
  let given := ds.mapEach .normal fun _ => rfl
  if ds.contains rootName then given else given.insert rootDefinition

/-! ## What a normal form holds -/

namespace Definitions

variable {ds : Definitions}

/-- A name has the normal form of its definition, and the root without one that of an unchanged
root. -/
theorem get?_normal (ds : Definitions) (name : String) :
    ds.normal.get? name
      = ((ds.get? name).map (·.normal)).or
          (if name = rootName then some rootDefinition else none) := by
  have hgiven : (ds.mapEach .normal fun _ => rfl).get? name = (ds.get? name).map (·.normal) :=
    get?_mapEach _ _ name
  rw [normal]
  by_cases hroot : ds.contains rootName
  · rw [if_pos hroot, hgiven]
    cases hget : ds.get? name with
    | some d => rfl
    | none =>
        have hname : name ≠ rootName := by
          rintro rfl
          rw [contains, hget] at hroot
          cases hroot
        rw [if_neg hname]
        rfl
  · rw [if_neg hroot, get?_insert, hgiven]
    by_cases hname : name = rootName
    · subst hname
      have hnone : ds.get? rootName = none := by
        simpa [contains] using hroot
      rw [hnone, if_pos rfl]
      rfl
    · rw [if_neg hname, Option.or_none]
      exact if_neg (Ne.symm hname)

/-- A member is a normal form of a definition, or an unchanged root. -/
theorem mem_normal {d : Definition} (h : d ∈ ds.normal.toList) :
    (∃ e ∈ ds.toList, e.normal = d) ∨ d = rootDefinition := by
  have hget := get?_name_of_mem h
  rw [get?_normal] at hget
  rcases Option.or_eq_some_iff.1 hget with hgiven | ⟨-, hroot⟩
  · obtain ⟨e, he, hnormal⟩ := Option.map_eq_some_iff.1 hgiven
    exact .inl ⟨e, (mem_of_get? he).1, hnormal⟩
  · split at hroot
    · exact .inr (Option.some.inj hroot).symm
    · cases hroot

theorem withoutEmpty_normal : ∀ d ∈ ds.normal.toList, d.WithoutEmpty := by
  intro d hd
  rcases mem_normal hd with ⟨e, -, rfl⟩ | rfl
  · refine ⟨?_, fun a ha => ?_⟩
    · intro hempty
      have hkept := (Option.filter_eq_some_iff.1 hempty).2
      simp at hkept
    · obtain ⟨b, -, rfl⟩ := List.mem_map.1 ha
      exact filter_ne_empty_iff.1 (filter_filter_ne_empty b.pattern)
  · simp [Definition.WithoutEmpty, rootDefinition]

/-- A normal form names files that the set names. -/
theorem names_of_names_normal {path : String} (h : ds.normal.Names path) : ds.Names path := by
  obtain ⟨d, hd, a, ha, hpath⟩ := h
  rcases mem_normal hd with ⟨e, he, rfl⟩ | rfl
  · obtain ⟨b, hb, rfl⟩ := List.mem_map.1 ha
    exact ⟨e, he, b, hb, hpath⟩
  · rw [List.mem_singleton.1 ha] at hpath
    cases hpath

/-- A set without empty patterns is read back from its tree as it is. -/
theorem reread_eq_self (h : ∀ d ∈ ds.toList, d.WithoutEmpty) : ds.reread = ds := by
  refine ext_toList (map_eq_self_iff.2 fun d hd => ?_)
  have happenders : d.appenders.map (·.pruned) = d.appenders :=
    map_eq_self_iff.2 fun a ha => a.pruned_eq_self_iff.2 ((h d hd).2 a ha)
  rw [Definition.reread, happenders]

end Definitions

/-! ## What a new manager exports -/

/-- The pattern that a definition gives to a new logger is exported unless it is the default one. -/
theorem Pattern.exported_getD (times : TimeFormat) (source : Option String) :
    ((given? times source).getD .default).exported
      = source.filter fun p => p != "" && p != defaultSource := by
  cases source with
  | none => rfl
  | some text =>
      by_cases hempty : text = ""
      · subst hempty
        rfl
      · rw [given?_some hempty, Option.getD_some]
        show (if text == defaultSource then none else some text) = _
        by_cases hdefault : text = defaultSource <;> simp [Option.filter, hempty, hdefault]

/-- What a new logger goes by under a definition is exported as the normal form. -/
theorem Definition.definition_status (times : TimeFormat) (d : Definition) :
    (d.status times).definition d.name = d.normal := by
  have hpattern : ((Action.apply d).pattern times .default).exported = d.normal.pattern :=
    Pattern.exported_getD times d.pattern
  rw [Definition.status, Action.result, definition_status_apply, Option.elim_none, hpattern]
  rfl

namespace State

variable {s u : State} {ds es : Definitions}

/-- A new manager exports the normal form of the set that has been applied to it. -/
theorem definitions_reconcile_empty (hs : s.Sound)
    (hok : (s.addManager.1.reconcile s.managers.size .empty ds).2.failed = []) :
    (s.addManager.1.reconcile s.managers.size .empty ds).1.definitions s.managers.size
      = ds.normal := by
  have hnew := intact_addManager hs
  have ht := hnew.sound.reconcile hnew.lt .empty ds
  refine Definitions.ext_get? fun name => ?_
  rw [get?_definitions ht, status?_reconcile_empty hs ds hok, Definitions.get?_normal]
  cases hget : ds.get? name with
  | some d =>
      obtain ⟨-, rfl⟩ := Definitions.mem_of_get? hget
      exact congrArg some (d.definition_status s.times)
  | none =>
      rw [Option.map_none, Option.map_none, Option.none_or, Option.none_or, status?_addManager]
      by_cases hname : name = rootName
      · rw [if_pos hname, if_pos hname, hname]
        rfl
      · rw [if_neg hname, if_neg hname]
        rfl

/-- Whoever can open the files of a set can open those of one that names no others. -/
theorem Opens.mono (h : u.Opens ds) (hsub : ∀ path, es.Names path → ds.Names path) :
    u.Opens es := by
  have hsub' : ∀ path, u.Names path ∨ es.Names path → u.Names path ∨ ds.Names path :=
    fun path hp => hp.imp id (hsub path)
  exact fun files hfiles path hp => h files (hfiles.mono hsub') path (hsub path hp)

/-- A set of definitions that has been applied to a new manager without a failure is exported in its
normal form: each definition has its level filled in and keeps what patterns tell it from the
default, the root is there in any case, and there is nothing else. A new manager that is built from
the normal form, in the same state or in another one that writes times alike and can open the files,
takes all of it and exports it unchanged. -/
theorem definitions_eq_normal {times : TimeFormat} (h : s.Attained times) (ds : Definitions)
    (hok : (s.addManager.1.reconcile s.managers.size .empty ds).2.failed = []) :
    (s.addManager.1.reconcile s.managers.size .empty ds).1.definitions s.managers.size
        = ds.normal ∧
      ∀ u : State, u.Reached → u.times = times → u.Opens ds →
        let again := u.addManager.1.reconcile u.managers.size .empty ds.normal
        again.2.failed = [] ∧ again.1.definitions u.managers.size = ds.normal := by
  have hs := sound_of_reached (reached_of_attained h)
  have hnormal := definitions_reconcile_empty hs hok
  have hlt := (intact_addManager hs).lt
  have ht : (s.addManager.1.reconcile s.managers.size .empty ds).1.Attained times :=
    h.addManager.reconcile hlt .empty ds
  have hmanager : s.managers.size
      < (s.addManager.1.reconcile s.managers.size .empty ds).1.managers.size :=
    (size_managers_reconcile hs.addManager hlt .empty ds).symm ▸ hlt
  refine ⟨hnormal, fun u hu htimes ho => ?_⟩
  generalize (s.addManager.1.reconcile s.managers.size .empty ds).1 = t at *
  have hsound := sound_of_reached (reached_of_attained ht)
  -- a normal form has no empty patterns, so it is what is read back from its tree
  have hreread : (t.definitions s.managers.size).reread = ds.normal := by
    rw [hnormal, Definitions.reread_eq_self Definitions.withoutEmpty_normal]
  have hbuildable := (rebuildable_of_attained ht).buildable_reread (m := s.managers.size) hsound
  rw [hreread, ← htimes] at hbuildable
  have hopens : u.Opens ds.normal := ho.mono fun _ => Definitions.names_of_names_normal
  have hagain := failed_reconcile_empty hopens hbuildable
  have hsame := definitions_reconcile_reread hsound hmanager (sound_of_reached hu)
    (by rwa [hreread])
  rw [hreread, hnormal, Definitions.pruned_eq_self Definitions.withoutEmpty_normal] at hsame
  exact ⟨hagain, hsame⟩

/-- Definitions with patterns that say nothing, and none of the root. -/
def wordy : Definitions :=
  .ofList [
    { name := "web", pattern := some Pattern.defaultSource, appenders := [
      { destination := .file "web.log", pattern := some "" },
      { destination := .stdout, level := some .warn, pattern := some "[%p] %m" }] },
    { name := "db", level := some .off, pattern := some "" }]

/-- The one file that is named has been opened before. -/
theorem opens_wordy : webAndIdle.Opens wordy := by
  refine opens_webAndIdle.mono fun path hpath => ?_
  have hnamed : ∀ d ∈ wordy.toList, ∀ a ∈ d.appenders, a.destination = .stdout ∨
      a.destination = .file "web.log" := by decide
  obtain ⟨d, hd, a, ha, hdest⟩ := hpath
  rcases hnamed d hd a ha with h | h
  · rw [h] at hdest
    cases hdest
  · rw [h] at hdest
    rw [← Destination.file.inj hdest]
    have hexported : ∃ d ∈ (webAndIdle.definitions 0).toList, ∃ a ∈ d.appenders,
        a.destination = .file "web.log" := by decide
    exact hexported

theorem definitions_eq_normal_wordy :
    let s : State := { files := .start [] }
    (s.addManager.1.reconcile 0 .empty wordy).1.definitions 0 = wordy.normal ∧
      (webAndIdle.addManager.1.reconcile 1 .empty wordy.normal).2.failed = [] ∧
      (webAndIdle.addManager.1.reconcile 1 .empty wordy.normal).1.definitions 1 = wordy.normal ∧
      wordy.normal.toList = [
        { name := "db", level := some .off },
        { name := rootName, level := some .debug
          appenders := [{ destination := .stdout, level := some .debug }] },
        { name := "web", level := some .debug, appenders := [
          { destination := .file "web.log", level := some .debug },
          { destination := .stdout, level := some .warn, pattern := some "[%p] %m" }] }] := by
  have hok : ((State.addManager { files := .start [] }).1.reconcile 0 .empty wordy).2.failed
      = [] := rfl
  obtain ⟨hnormal, hagain⟩ := definitions_eq_normal (.start (.start [])) wordy hok
  obtain ⟨hfailed, hsame⟩ :=
    hagain webAndIdle (reached_of_attained attained_webAndIdle) rfl opens_wordy
  exact ⟨hnormal, hfailed, hsame, by decide⟩

end State

end ConfigLog.Logging
