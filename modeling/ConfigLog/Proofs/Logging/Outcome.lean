import ConfigLog.Proofs.Logging.Status

set_option autoImplicit false

/-! # Which definitions fail

Where opening a file is settled by its path, a definition is applied without failing exactly when it
is buildable (`isOk_apply`): the state of the loggers has no part in it. Carrying out a step leaves
the answers as settled as they were (`leads_perform`).
-/

namespace ConfigLog.Logging

/-- The files that an action opens have paths of one kind. -/
def Action.Within (P : String → Prop) : Action → Prop
  | .apply d => d.Within P
  | .disable _ => True

theorem Action.Within.mono {P Q : String → Prop} {a : Action} (ha : a.Within Q)
    (h : ∀ path, Q path → P path) : a.Within P := by
  cases a with
  | apply d => exact fun x hx => (ha x hx).mono h
  | disable name => trivial

namespace State

variable {s t : State} {m : ManagerId} {P Q : String → Prop} {opens : String → Bool}

/-! ## Operations that open no files -/

theorem files_install (s : State) (i : LoggerId) (p : Option Pattern) (level : Level)
    (xs : List Appender) : (s.install i p level xs).files = s.files :=
  install_keeps (Q := fun t => t.files = s.files) rfl (fun _ _ h => h) (fun _ _ _ h => h)
    (fun _ _ _ h => h) p level

/-! ## Paths of appenders -/

theorem Within.modifyAppender (hs : s.Within P) (a : AppenderId) (p : Pattern) :
    (s.modifyAppender a (·.inherit p)).Within P := by
  intro b path hb
  refine hs b path ?_
  rw [← hb]
  simp only [State.modifyAppender, setting, Array.getElem?_modify]
  by_cases hab : a = b
  · subst hab
    cases s.appenders[a]? with
    | none => simp
    | some x =>
        simp only [if_true, Option.map_some, Option.getD_some, Appender.setting_inherit]
        unfold Setting.inherit
        split <;> rfl
  · rw [if_neg hab]

theorem Within.addAppender (hs : s.Within P) {x : Appender}
    (hx : ∀ path, x.sink.destination = .file path → P path) : (s.addAppender x).1.Within P := by
  intro b path hb
  by_cases hnew : b = s.appenders.size
  · have hset : (s.addAppender x).1.setting b = x.setting := by
      simp [hnew, State.addAppender, setting]
    rw [hset] at hb
    exact hx path hb
  · have hset : (s.addAppender x).1.setting b = s.setting b := by
      simp [hnew, State.addAppender, setting, Array.getElem?_push]
    rw [hset] at hb
    exact hs b path hb

theorem Within.install (hs : s.Within P) (i : LoggerId) (p : Option Pattern) (level : Level)
    {xs : List Appender}
    (hx : ∀ x ∈ xs, ∀ path, x.sink.destination = .file path → P path) :
    (s.install i p level xs).Within P :=
  install_keeps hs (fun _ _ hu => hu) (fun _ a q hu => hu.modifyAppender a q)
    (fun _ x hmem hu => hu.addAppender (hx x hmem)) p level

theorem writes_obtain (s : State) (m : ManagerId) (name : String) :
    (s.Within P → (s.obtain m name).1.Within P) ∧
      (s.Within P → s.files.Leads P (s.obtain m name).1.files) := by
  cases hf : (s.manager m).find? name with
  | some i =>
      rw [obtain_of_find hf]
      exact ⟨id, fun _ => .refl _⟩
  | none =>
      rw [obtain_of_find_none hf]
      have hw := writes_emit (s.enrol m name) (createdRecord name)
      exact ⟨fun hs => Within.congr hw.setup (s := s.enrol m name) hs,
        fun hs => hw.files (P := P) hs⟩

/-! ## Steps -/

/-- Built appenders have the destinations that their definitions say. -/
theorem within_built {ds : List AppenderDefinition} {xs : List Appender}
    (h : (s.buildAll ds).2 = .ok xs) (hd : ∀ d ∈ ds, d.Within P) :
    ∀ x ∈ xs, ∀ path, x.sink.destination = .file path → P path := by
  intro x hx path hpath
  have hmem : x.setting ∈ ds.map (·.setting s.times .default) := by
    rw [← buildAll_settings h]
    exact List.mem_map_of_mem hx
  obtain ⟨d, hd', hset⟩ := List.mem_map.1 hmem
  refine hd d hd' path ?_
  have hdest : (d.setting s.times .default).destination = x.sink.destination := by rw [hset]; rfl
  exact hdest.trans hpath

theorem leads_apply (hs : s.Within P) {d : Definition} (hd : d.Within P) :
    (s.apply m d).1.Within P ∧ s.files.Leads P (s.apply m d).1.files := by
  have hw := writes_definedPattern s d.pattern
  rw [apply_eq]
  refine andThen_fst (Q := fun t => t.Within P ∧ s.files.Leads P t.files)
    ⟨hs.congr hw.setup, hw.files hs⟩ fun p _ => ?_
  have hb := prepares_buildAll d.appenders (s.definedPattern d.pattern).1
  have ht := hs.congr hw.setup
  have hu := ht.congr hb.setup
  have hl := (hw.files hs).trans (hb.files ht hd)
  refine andThen_fst (Q := fun t => t.Within P ∧ s.files.Leads P t.files)
    ⟨hu, hl⟩ fun xs hxs => ?_
  obtain ⟨hwithin, hleads⟩ := writes_obtain (P := P)
    ((s.definedPattern d.pattern).1.buildAll d.appenders).1 m d.name
  refine ⟨(hwithin hu).install _ _ _ (within_built hxs hd), ?_⟩
  rw [files_install]
  exact hl.trans (hleads hu)

theorem leads_disable (hs : s.Within P) (name : String) :
    (s.disable m name).Within P ∧ s.files.Leads P (s.disable m name).files := by
  obtain ⟨hwithin, hleads⟩ := writes_obtain (P := P) s m name
  exact ⟨hwithin hs, hleads hs⟩

theorem leads_perform (hs : s.Within P) {a : Action} (ha : a.Within P) :
    (perform m (s, {}) a).1.Within P ∧ s.files.Leads P (perform m (s, {}) a).1.files := by
  have hemit : ∀ (t : State) (record : Record), t.Within P ∧ s.files.Leads P t.files →
      (t.emit record).Within P ∧ s.files.Leads P (t.emit record).files := by
    intro t record ⟨ht, hl⟩
    have hw := writes_emit t record
    exact ⟨ht.congr hw.setup, hl.trans (hw.files ht)⟩
  cases a with
  | apply d =>
      obtain ⟨record, hstate, -⟩ := perform_apply s m d
      rw [hstate]
      exact hemit _ _ (leads_apply hs ha)
  | disable name => exact hemit _ _ (leads_disable hs name)

theorem isOk_apply (hf : s.files.SettledOn P Q opens) (hsub : ∀ path, Q path → P path)
    (hs : s.Within P) {d : Definition} (hd : d.Within Q) :
    (s.apply m d).2.isOk = d.buildable s.times opens := by
  have hw := writes_definedPattern s d.pattern
  rw [apply_eq, Definition.buildable, ← (definedPattern_snd s d.pattern).1]
  refine isOk_andThen fun p _ => ?_
  refine (isOk_andThen (q := true) fun xs _ => rfl).trans ?_
  rw [Bool.and_true, ← times_congr hw.setup]
  exact isOk_buildAll (hf.of_leads (hw.files hs)) hsub (hs.congr hw.setup) hd

end State

end ConfigLog.Logging
