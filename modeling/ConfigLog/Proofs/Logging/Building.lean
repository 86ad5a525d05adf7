import ConfigLog.Proofs.Logging.Setup

set_option autoImplicit false

/-! # Building what definitions ask for

Building is a chain of steps that can fail (`andThen`). Compiling the patterns of a definition and
opening its files comes before any logger is touched: the setup of the state stays (`Prepares`).
What is built is set to what its definition says (`build_setting`). Where opening a file is settled
by its path, building succeeds exactly when all patterns are well formed and all files can be opened
(`isOk_buildAll`).
-/

namespace ConfigLog.Logging

/-! ## What definitions ask for -/

/-- The pattern that a definition gives. An empty text gives none. -/
def Pattern.given? (times : TimeFormat) (source : Option String) : Option Pattern :=
  (source.filter (· != "")).map (Pattern.compile times)

/-- The pattern that a definition gives, if any, is well formed. -/
def Pattern.acceptable (times : TimeFormat) (source : Option String) : Bool :=
  (Pattern.given? times source).all (!·.malformed)

/-- The setting that a definition asks for, attached to a logger with a pattern. -/
def AppenderDefinition.setting (d : AppenderDefinition) (times : TimeFormat) (p : Pattern) :
    Setting where
  destination := d.destination
  level := d.level.getD .debug
  pattern := (Pattern.given? times d.pattern).getD p
  own := (Pattern.given? times d.pattern).isSome

theorem AppenderDefinition.inherit_setting (d : AppenderDefinition) (times : TimeFormat)
    (p q : Pattern) : (d.setting times q).inherit p = d.setting times p := by
  unfold AppenderDefinition.setting Setting.inherit
  cases Pattern.given? times d.pattern <;> simp

/-- The appender is what came of building a definition. -/
def Appender.Built (x : Appender) (times : TimeFormat) : Prop :=
  ∃ (s : State) (d : AppenderDefinition), s.times = times ∧ (s.build d).2 = .ok x

/-- The file of the appender, if it has one, has a path of one kind. -/
def AppenderDefinition.Within (P : String → Prop) (d : AppenderDefinition) : Prop :=
  ∀ path, d.destination = .file path → P path

theorem AppenderDefinition.Within.mono {P Q : String → Prop} {d : AppenderDefinition}
    (hd : d.Within Q) (h : ∀ path, Q path → P path) : d.Within P :=
  fun path hpath => h path (hd path hpath)

/-- The appender can be built when files can be opened as told. -/
def AppenderDefinition.buildable (times : TimeFormat) (opens : String → Bool)
    (d : AppenderDefinition) : Bool :=
  Pattern.acceptable times d.pattern &&
    match d.destination with
    | .stdout => true
    | .file path => opens path

/-- All that the definition asks for can be built when files can be opened as told. -/
def Definition.buildable (times : TimeFormat) (opens : String → Bool) (d : Definition) : Bool :=
  Pattern.acceptable times d.pattern && d.appenders.all (·.buildable times opens)

/-- The files of all appenders of the definition have paths of one kind. -/
def Definition.Within (P : String → Prop) (d : Definition) : Prop :=
  ∀ a ∈ d.appenders, a.Within P

namespace State

variable {s t : State}

/-! ## The frame of building -/

/-- The second state comes out of the first one by writing and by opening files of definitions. -/
structure Prepares (ds : List AppenderDefinition) (s t : State) : Prop where
  setup : t.setup = s.setup
  files : ∀ {P : String → Prop}, s.Within P → (∀ d ∈ ds, d.Within P) → s.files.Leads P t.files

theorem Writes.prepares (h : s.Writes t) (ds : List AppenderDefinition) : Prepares ds s t :=
  ⟨h.setup, fun hp _ => h.files hp⟩

theorem Prepares.trans {ds : List AppenderDefinition} {u : State} (h : Prepares ds s t)
    (h' : Prepares ds t u) : Prepares ds s u where
  setup := h'.setup.trans h.setup
  files hp hd := (h.files hp hd).trans (h'.files (hp.congr h.setup) hd)

theorem Prepares.mono {ds es : List AppenderDefinition} (hsub : ds ⊆ es) (h : Prepares ds s t) :
    Prepares es s t :=
  ⟨h.setup, fun hp he => h.files hp fun d hd => he d (hsub hd)⟩

/-! ## Steps that can fail -/

section

variable {α β : Type} {x : State × Except LogError α}
  {f : State → α → State × Except LogError β}

/-- Goes on with the result of a step, unless the step has failed. -/
def andThen (x : State × Except LogError α) (f : State → α → State × Except LogError β) :
    State × Except LogError β :=
  match x with
  | (s, .error e) => (s, .error e)
  | (s, .ok a) => f s a

theorem andThen_cases (x : State × Except LogError α)
    (f : State → α → State × Except LogError β) :
    (∃ e, x.2 = .error e ∧ andThen x f = (x.1, .error e)) ∨
      ∃ a, x.2 = .ok a ∧ andThen x f = f x.1 a := by
  obtain ⟨s, e | a⟩ := x
  · exact .inl ⟨e, rfl, rfl⟩
  · exact .inr ⟨a, rfl, rfl⟩

/-- What holds after the first step, and after the second one if it takes place. -/
theorem andThen_fst {Q : State → Prop} (hx : Q x.1) (hf : ∀ a, x.2 = .ok a → Q (f x.1 a).1) :
    Q (andThen x f).1 := by
  rcases andThen_cases x f with ⟨e, -, heq⟩ | ⟨a, ha, heq⟩
  · rwa [heq]
  · rw [heq]
    exact hf a ha

theorem andThen_eq_ok {b : β} (h : (andThen x f).2 = .ok b) :
    ∃ a, x.2 = .ok a ∧ (f x.1 a).2 = .ok b := by
  rcases andThen_cases x f with ⟨e, -, heq⟩ | ⟨a, ha, heq⟩
  · rw [heq] at h
    cases h
  · exact ⟨a, ha, heq ▸ h⟩

theorem andThen_eq_error {e : LogError} (h : (andThen x f).2 = .error e) :
    (x.2 = .error e ∧ (andThen x f).1 = x.1) ∨
      ∃ a, x.2 = .ok a ∧ andThen x f = f x.1 a ∧ (f x.1 a).2 = .error e := by
  rcases andThen_cases x f with ⟨e', he, heq⟩ | ⟨a, ha, heq⟩
  · rw [heq] at h ⊢
    obtain rfl := Except.error.inj h
    exact .inl ⟨he, rfl⟩
  · exact .inr ⟨a, ha, heq, heq ▸ h⟩

theorem isOk_andThen {q : Bool} (hf : ∀ a, x.2 = .ok a → (f x.1 a).2.isOk = q) :
    (andThen x f).2.isOk = (x.2.isOk && q) := by
  rcases andThen_cases x f with ⟨e, he, heq⟩ | ⟨a, ha, heq⟩
  · rw [heq, he]
    rfl
  · rw [heq, hf a ha, ha]
    rfl

end

theorem build_eq (s : State) (d : AppenderDefinition) :
    s.build d = andThen (s.definedPattern d.pattern) fun t p =>
      andThen (t.openSink d.destination) fun u sink =>
        (u, .ok {
          sink, level := d.level.getD .debug, pattern := p.getD .default, own := p.isSome }) := by
  unfold build
  rcases s.definedPattern d.pattern with ⟨t, e | p⟩
  · rfl
  · dsimp only [andThen]
    rcases t.openSink d.destination with ⟨u, e | sink⟩ <;> rfl

theorem buildAll_cons (s : State) (d : AppenderDefinition) (ds : List AppenderDefinition) :
    s.buildAll (d :: ds) = andThen (s.build d) fun t x =>
      andThen (t.buildAll ds) fun u xs => (u, .ok (x :: xs)) := by
  rw [buildAll]
  rcases s.build d with ⟨t, e | x⟩
  · rfl
  · dsimp only [andThen]
    rcases t.buildAll ds with ⟨u, e | xs⟩ <;> rfl

theorem apply_eq (s : State) (m : ManagerId) (d : Definition) :
    s.apply m d = andThen (s.definedPattern d.pattern) fun t p =>
      andThen (t.buildAll d.appenders) fun u xs =>
        ((u.obtain m d.name).1.install (u.obtain m d.name).2 p (d.level.getD .debug) xs,
          .ok ()) := by
  unfold apply
  rcases s.definedPattern d.pattern with ⟨t, e | p⟩
  · rfl
  · dsimp only [andThen]
    rcases t.buildAll d.appenders with ⟨u, e | xs⟩ <;> rfl

/-! ## Patterns -/

theorem parse_eq (s : State) (source : String) :
    s.parse source = if (Pattern.compile s.times source).malformed
      then (s.emit (malformedRecord source), .error (.malformedPattern source))
      else (s, .ok (.compile s.times source)) := by
  unfold State.parse compile
  by_cases hm : (Pattern.compile s.times source).malformed
  · simp [hm]
  · simp [hm]

/-- Nothing comes of compiling a pattern but perhaps a record. -/
theorem definedPattern_fst (s : State) (source : Option String) :
    (s.definedPattern source).1 = s ∨ ∃ r, (s.definedPattern source).1 = s.emit r := by
  unfold definedPattern
  split
  · exact .inl rfl
  · rename_i text _
    rw [parse_eq]
    by_cases h : (Pattern.compile s.times text).malformed
    · rw [if_pos h]
      exact .inr ⟨_, rfl⟩
    · rw [if_neg h]
      exact .inl rfl

theorem writes_definedPattern (s : State) (source : Option String) :
    s.Writes (s.definedPattern source).1 := by
  rcases definedPattern_fst s source with h | ⟨r, h⟩
  · rw [h]
    exact .refl s
  · rw [h]
    exact writes_emit s r

theorem definedPattern_snd (s : State) (source : Option String) :
    (s.definedPattern source).2.isOk = Pattern.acceptable s.times source ∧
      ∀ p, (s.definedPattern source).2 = .ok p → p = Pattern.given? s.times source := by
  unfold definedPattern Pattern.acceptable Pattern.given?
  split
  · rename_i hn
    rw [hn]
    exact ⟨rfl, fun p hp => (Except.ok.inj hp).symm⟩
  · rename_i text hs
    rw [hs]
    rw [parse_eq]
    by_cases hm : (Pattern.compile s.times text).malformed
    · simp [hm, Except.isOk, Except.toBool]
    · simp [hm, Except.isOk, Except.toBool, eq_comm]

/-! ## Appenders -/

theorem prepares_openSink (s : State) (d : AppenderDefinition) :
    Prepares [d] s (s.openSink d.destination).1 := by
  unfold openSink
  split
  · exact (Writes.refl s).prepares _
  · rename_i path hd
    have hl : ∀ {P : String → Prop}, (∀ e ∈ [d], e.Within P) →
        s.files.Leads P (s.files.openAppend path).1 := by
      intro P hp
      exact .openAppend (hp d List.mem_cons_self path hd) (.refl _)
    split
    · rename_i files e he
      rw [he] at hl
      exact ⟨rfl, fun _ hp => hl hp⟩
    · rename_i files handle he
      rw [he] at hl
      exact ⟨rfl, fun _ hp => hl hp⟩

theorem openSink_destination {d : Destination} {sink : Sink} (h : (s.openSink d).2 = .ok sink) :
    sink.destination = d := by
  unfold openSink at h
  split at h
  · rw [← Except.ok.inj h]
    rfl
  · split at h
    · cases h
    · rw [← Except.ok.inj h]
      rfl

theorem isOk_openSink_file (s : State) (path : String) :
    (s.openSink (.file path)).2.isOk = (s.files.openAppend path).2.isOk := by
  rw [openSink]
  rcases s.files.openAppend path with ⟨files, r⟩
  cases r <;> rfl

/-- A new appender is added, unless its sink cannot be opened. -/
theorem newAppender_cases (s : State) (d : Destination) :
    (s.newAppender d).1.setup = s.setup ∨ ∃ (u : State) (sink : Sink), u.setup = s.setup ∧
      (s.openSink d).2 = .ok sink ∧ (s.newAppender d).1 = (u.addAppender { sink }).1 := by
  have hset : (s.openSink d).1.setup = s.setup := (prepares_openSink s { destination := d }).setup
  unfold newAppender
  rcases hopened : s.openSink d with ⟨u, e | sink⟩
  · rw [hopened] at hset
    exact .inl hset
  · rw [hopened] at hset
    exact .inr ⟨u, sink, hset, rfl, rfl⟩

theorem prepares_build (s : State) (d : AppenderDefinition) : Prepares [d] s (s.build d).1 := by
  have hw := (writes_definedPattern s d.pattern).prepares [d]
  rw [build_eq]
  refine andThen_fst hw fun p _ => ?_
  have ho := hw.trans (prepares_openSink _ d)
  exact andThen_fst ho fun sink _ => ho

theorem build_setting {d : AppenderDefinition} {x : Appender} (h : (s.build d).2 = .ok x) :
    x.setting = d.setting s.times .default := by
  rw [build_eq] at h
  obtain ⟨p, hp, h⟩ := andThen_eq_ok h
  obtain ⟨sink, hsink, h⟩ := andThen_eq_ok h
  obtain rfl := (definedPattern_snd s d.pattern).2 p hp
  rw [← Except.ok.inj h]
  simp only [Appender.setting, AppenderDefinition.setting, openSink_destination hsink]

theorem isOk_build {P Q : String → Prop} {opens : String → Bool}
    (hf : s.files.SettledOn P Q opens) (hs : s.Within P) {d : AppenderDefinition}
    (hd : d.Within Q) : (s.build d).2.isOk = d.buildable s.times opens := by
  rw [build_eq, AppenderDefinition.buildable, ← (definedPattern_snd s d.pattern).1]
  refine isOk_andThen fun p _ => ?_
  -- the files are as settled after the pattern as before it
  have hft := hf.of_leads ((writes_definedPattern s d.pattern).files hs)
  refine (isOk_andThen (q := true) fun sink _ => rfl).trans ?_
  rw [Bool.and_true]
  cases hdest : d.destination with
  | stdout => rfl
  | file path =>
      rw [isOk_openSink_file]
      exact hft _ (.refl _) path (hd path hdest)

/-! ## Lists of appenders -/

/-- What reporting a record keeps, compiling the pattern of a definition keeps. -/
theorem definedPattern_keeps {Q : State → Prop} (hs : Q s)
    (hemit : ∀ (u : State) (r : Record), Q u → Q (u.emit r)) (source : Option String) :
    Q (s.definedPattern source).1 := by
  rcases definedPattern_fst s source with h | ⟨r, h⟩ <;> rw [h]
  · exact hs
  · exact hemit s r hs

/-- What reporting a record keeps, and opening a sink, building an appender keeps. -/
theorem build_keeps {Q : State → Prop} (hs : Q s)
    (hemit : ∀ (u : State) (r : Record), Q u → Q (u.emit r))
    (hopen : ∀ (u : State) (d : Destination), Q u → Q (u.openSink d).1) (d : AppenderDefinition) :
    Q (s.build d).1 := by
  have hp := definedPattern_keeps hs hemit d.pattern
  rw [build_eq]
  refine andThen_fst hp fun p _ => ?_
  have ho := hopen _ d.destination hp
  exact andThen_fst ho fun sink _ => ho

theorem buildAll_keeps {Q : State → Prop} (hs : Q s)
    (hemit : ∀ (u : State) (r : Record), Q u → Q (u.emit r))
    (hopen : ∀ (u : State) (d : Destination), Q u → Q (u.openSink d).1)
    (ds : List AppenderDefinition) : Q (s.buildAll ds).1 := by
  induction ds generalizing s with
  | nil => exact hs
  | cons d ds ih =>
      have hb := build_keeps hs hemit hopen d
      rw [buildAll_cons]
      refine andThen_fst hb fun x _ => ?_
      have hr := ih hb
      exact andThen_fst hr fun xs _ => hr

theorem prepares_buildAll (ds : List AppenderDefinition) (s : State) :
    Prepares ds s (s.buildAll ds).1 := by
  induction ds generalizing s with
  | nil => exact (Writes.refl s).prepares _
  | cons d ds ih =>
      have hb : Prepares (d :: ds) s (s.build d).1 := (prepares_build s d).mono (by simp)
      rw [buildAll_cons]
      refine andThen_fst hb fun x _ => ?_
      have hr := hb.trans ((ih (s.build d).1).mono (List.subset_cons_self d ds))
      exact andThen_fst hr fun xs _ => hr

theorem buildAll_settings {ds : List AppenderDefinition} {xs : List Appender}
    (h : (s.buildAll ds).2 = .ok xs) :
    xs.map (·.setting) = ds.map (·.setting s.times .default) := by
  induction ds generalizing s xs with
  | nil =>
      rw [← Except.ok.inj h]
      rfl
  | cons d ds ih =>
      rw [buildAll_cons] at h
      obtain ⟨x, hx, h⟩ := andThen_eq_ok h
      obtain ⟨ys, hys, h⟩ := andThen_eq_ok h
      rw [← Except.ok.inj h, List.map_cons, List.map_cons, build_setting hx, ih hys,
        times_congr (prepares_build s d).setup]

/-- What holds of every appender that is built holds of all that are built one after the other. -/
theorem forall_of_buildAll {Q : Appender → Prop} {ds : List AppenderDefinition}
    {xs : List Appender}
    (hQ : ∀ (u : State) d x, u.times = s.times → (u.build d).2 = .ok x → Q x)
    (h : (s.buildAll ds).2 = .ok xs) : ∀ x ∈ xs, Q x := by
  induction ds generalizing s xs with
  | nil =>
      rw [← Except.ok.inj h]
      exact fun x hx => absurd hx List.not_mem_nil
  | cons d ds ih =>
      rw [buildAll_cons] at h
      obtain ⟨x, hx, h⟩ := andThen_eq_ok h
      obtain ⟨ys, hys, h⟩ := andThen_eq_ok h
      have htimes : (s.build d).1.times = s.times := times_congr (prepares_build s d).setup
      rw [← Except.ok.inj h]
      refine List.forall_mem_cons.2 ⟨hQ s d x rfl hx, ih (fun u e y hu => ?_) hys⟩
      exact hQ u e y (hu.trans htimes)

theorem built_of_buildAll {ds : List AppenderDefinition} {xs : List Appender}
    (h : (s.buildAll ds).2 = .ok xs) : ∀ x ∈ xs, x.Built s.times :=
  forall_of_buildAll (fun u d _ hu hx => ⟨u, d, hu, hx⟩) h

theorem isOk_buildAll {P Q : String → Prop} {opens : String → Bool}
    {ds : List AppenderDefinition} (hf : s.files.SettledOn P Q opens)
    (hsub : ∀ path, Q path → P path) (hs : s.Within P) (hds : ∀ d ∈ ds, d.Within Q) :
    (s.buildAll ds).2.isOk = ds.all (·.buildable s.times opens) := by
  induction ds generalizing s with
  | nil => rfl
  | cons d ds ih =>
      have hd := hds d List.mem_cons_self
      have hb := prepares_build s d
      have hft := hf.of_leads (hb.files hs fun e hmem => by
        rw [List.mem_singleton.1 hmem]
        exact hd.mono hsub)
      rw [buildAll_cons, List.all_cons, ← isOk_build hf hs hd]
      refine isOk_andThen fun x _ => ?_
      refine (isOk_andThen (q := true) fun xs _ => rfl).trans ?_
      rw [Bool.and_true, ← times_congr hb.setup]
      exact ih hft (hs.congr hb.setup) fun e hmem => hds e (List.mem_cons_of_mem d hmem)

end State

end ConfigLog.Logging
