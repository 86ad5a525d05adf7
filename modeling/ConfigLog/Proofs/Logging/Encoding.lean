import ConfigLog.Proofs.Logging.Export

set_option autoImplicit false

/-! # Definitions in trees

A record that has been written is read field by field (`Record.read_write`). So the tree of a set of
definitions is read back as the set itself, only that an empty pattern of an appender is left out,
as long as no appender has the empty path; a blank name is turned down (`Definitions.ofNode_toNode`).
-/

namespace ConfigLog

/-! ## Records -/

namespace Record

variable {σ : Type} {fields : List String} {step : σ → String → Node → RecordResult σ}

/-- Takes in a field as it is written; one without a value says nothing. -/
def takeIn (step : σ → String → Node → RecordResult σ) (s : σ) (f : String × Option Node) :
    RecordResult σ :=
  match f.2 with
  | some value => step s f.1 value
  | none => .ok s

theorem fold_write {fs : List (String × Option Node)} (hknown : ∀ f ∈ fs, f.1 ∈ fields)
    (hnodup : (fs.map (·.1)).Nodup) {seen : List String} (hnew : ∀ f ∈ fs, f.1 ∉ seen) (s : σ) :
    fold fields step seen s (fs.filterMap fun f => f.2.map (.string f.1, ·))
      = fs.foldlM (takeIn step) s := by
  -- a field that has been written is known and is new, whatever has been seen before it
  induction fs generalizing seen s with
  | nil => rfl
  | cons f fs ih =>
      obtain ⟨name, value⟩ := f
      have hknown' : ∀ g ∈ fs, g.1 ∈ fields := fun g hg => hknown g (List.mem_cons_of_mem _ hg)
      rw [List.map_cons, List.nodup_cons] at hnodup
      rw [List.foldlM_cons]
      cases value with
      | none => exact ih hknown' hnodup.2 (fun g hg => hnew g (List.mem_cons_of_mem _ hg)) s
      | some value =>
          have hin : fields.contains name = true :=
            List.contains_iff_mem.2 (hknown _ List.mem_cons_self)
          have hout : seen.contains name = false := by
            simpa using hnew _ List.mem_cons_self
          have hrest : ∀ g ∈ fs, g.1 ∉ name :: seen := by
            intro g hg hmem
            rcases List.mem_cons.1 hmem with heq | hmem
            · exact hnodup.1 (List.mem_map.2 ⟨g, hg, heq⟩)
            · exact hnew g (List.mem_cons_of_mem _ hg) hmem
          rw [List.filterMap_cons, Option.map_some, fold]
          show (if !fields.contains name then _ else if seen.contains name then _ else _) = _
          rw [hin, hout]
          show (step s name value >>= fun t => _) = step s name value >>= _
          exact bind_congr fun t => ih hknown' hnodup.2 hrest t

/-- A record that has been written with all its fields is read field by field. -/
theorem read_write {fs : List (String × Option Node)} (hnames : fs.map (·.1) = fields)
    (hnodup : fields.Nodup) (expected : String) (s : σ) :
    read expected fields step s (write fs) = fs.foldlM (takeIn step) s :=
  fold_write (fun _ hf => hnames ▸ List.mem_map_of_mem hf) (hnames ▸ hnodup)
    (fun _ _ => List.not_mem_nil) s

/-- Items that can be read back one by one can be read back as a list. -/
theorem mapM_write {α β : Type} {read : Node → RecordResult β} {write : α → Node} {f : α → β}
    {as : List α} (h : ∀ a ∈ as, read (write a) = .ok (f a)) :
    (as.map write).mapM read = .ok (as.map f) := by
  induction as with
  | nil => rfl
  | cons a as ih =>
      rw [List.map_cons, List.mapM_cons, h a List.mem_cons_self,
        ih fun b hb => h b (List.mem_cons_of_mem a hb)]
      rfl

end Record

namespace Logging

/-! ## Patterns that are empty -/

theorem filter_ne_empty_iff {pattern : Option String} :
    pattern.filter (· != "") = pattern ↔ pattern ≠ some "" := by
  cases pattern <;> simp [Option.filter]

/-- An empty pattern is left out once and for all. -/
theorem filter_filter_ne_empty (pattern : Option String) :
    (pattern.filter (· != "")).filter (· != "") = pattern.filter (· != "") := by
  rw [Option.filter_filter]
  simp only [Bool.and_self]

theorem map_eq_self_iff {α : Type} {f : α → α} {as : List α} :
    as.map f = as ↔ ∀ a ∈ as, f a = a := by
  have h : as.map f = as.map id ↔ ∀ a ∈ as, f a = id a := List.map_inj_left
  rwa [List.map_id] at h

/-! ## Appenders -/

/-- A definition without its pattern when that is empty. -/
def AppenderDefinition.pruned (a : AppenderDefinition) : AppenderDefinition :=
  { a with pattern := a.pattern.filter (· != "") }

/-- The fields of an appender that has been written are read back as they were. -/
theorem AppenderFields.read_write (type : String) (level : Option Level)
    (pattern file : Option String) :
    Record.read "struct RawAppender" ["type", "level", "formatter", "file"] step {}
        (Record.write [
          ("type", some (.string type)),
          ("level", level.map (.string ·.name)),
          ("formatter", pattern.map .string),
          ("file", file.map .string)])
      = .ok { type := some type, level, pattern, file } := by
  refine (Record.read_write ?_ ?_ _ _).trans ?_
  · rfl
  · decide
  · cases level with
    | none => cases pattern <;> cases file <;> rfl
    | some l => cases l <;> cases pattern <;> cases file <;> rfl

theorem AppenderDefinition.pruned_eq_self_iff (a : AppenderDefinition) :
    a.pruned = a ↔ a.pattern ≠ some "" := by
  obtain ⟨destination, level, pattern⟩ := a
  simp [pruned, filter_ne_empty_iff]

/-- The tree of an appender is read back as the appender, without an empty pattern. -/
theorem AppenderDefinition.ofNode_toNode {a : AppenderDefinition}
    (h : a.destination ≠ .file "") : ofNode a.toNode = .ok a.pruned := by
  obtain ⟨destination, level, pattern⟩ := a
  cases destination with
  | stdout =>
      have hread := AppenderFields.read_write stdoutType level pattern none
      exact (congrArg (· >>= AppenderFields.toDefinition) hread).trans rfl
  | file path =>
      have hpath : (path == "") = false := by simpa using h
      have hread := AppenderFields.read_write fileType level pattern (some path)
      refine (congrArg (· >>= AppenderFields.toDefinition) hread).trans ?_
      show (if path == "" then _ else _) = _
      rw [hpath]
      rfl

/-! ## Loggers -/

/-- The fields of a logger that has been written are read back as they were, with its appenders as
they are read. -/
theorem LoggerFields.read_write {f : AppenderDefinition → AppenderDefinition} (name : String)
    (level : Option Level) (pattern : Option String) {as : List AppenderDefinition}
    (h : ∀ a ∈ as, AppenderDefinition.ofNode a.toNode = .ok (f a)) :
    Record.read "struct LogDefine" ["name", "level", "formatter", "appenders"] step {}
        (Record.write [
          ("name", some (.string name)),
          ("level", level.map (.string ·.name)),
          ("formatter", pattern.map .string),
          ("appenders", some (.sequence (as.map (·.toNode))))])
      = .ok { name := some name, level, pattern, appenders := as.map f } := by
  have hitems : Record.items AppenderDefinition.ofNode (.sequence (as.map (·.toNode)))
      = .ok (as.map f) := Record.mapM_write h
  have hlast : ∀ g : LoggerFields,
      step g "appenders" (.sequence (as.map (·.toNode)))
        = .ok { g with appenders := as.map f } := by
    intro g
    show (Record.items AppenderDefinition.ofNode _ >>= fun as => .ok { g with appenders := as }) = _
    rw [hitems]
    rfl
  refine (Record.read_write ?_ ?_ _ _).trans ?_
  · rfl
  · decide
  · -- all but the appenders are read by evaluation
    cases level with
    | none => cases pattern <;> exact congrArg (· >>= .ok) (hlast _)
    | some l => cases l <;> cases pattern <;> exact congrArg (· >>= .ok) (hlast _)

/-- What the tree of a definition is read back as. -/
def Definition.reread (d : Definition) : Definition :=
  { d with appenders := d.appenders.map (·.pruned) }

/-- A definition without its pattern when that is empty, and with its appenders alike. -/
def Definition.pruned (d : Definition) : Definition :=
  { d.reread with pattern := d.pattern.filter (· != "") }

/-- Neither the pattern of the definition nor that of an appender is empty. -/
def Definition.WithoutEmpty (d : Definition) : Prop :=
  d.pattern ≠ some "" ∧ ∀ a ∈ d.appenders, a.pattern ≠ some ""

theorem Definition.pruned_eq_self_iff (d : Definition) : d.pruned = d ↔ d.WithoutEmpty := by
  have happenders : d.appenders.map (·.pruned) = d.appenders ↔
      ∀ a ∈ d.appenders, a.pattern ≠ some "" :=
    map_eq_self_iff.trans (forall₂_congr fun a _ => a.pruned_eq_self_iff)
  obtain ⟨name, level, pattern, appenders⟩ := d
  simp only [pruned, reread, WithoutEmpty, mk.injEq, true_and, filter_ne_empty_iff, happenders]

theorem Definition.ofNode_toNode {d : Definition}
    (h : ∀ a ∈ d.appenders, a.destination ≠ .file "") : ofNode d.toNode = .ok d.reread := by
  have hread := LoggerFields.read_write d.name d.level d.pattern fun a ha =>
    AppenderDefinition.ofNode_toNode (h a ha)
  rw [ofNode, toNode, hread]
  rfl

/-! ## Sets of definitions -/

namespace Definitions

/-- A definition of the set has an appender with the file of a path. -/
def Names (ds : Definitions) (path : String) : Prop :=
  ∃ d ∈ ds.toList, ∃ a ∈ d.appenders, a.destination = .file path

/-- The set with each definition changed, but not its name. -/
def mapEach (ds : Definitions) (f : Definition → Definition) (hf : ∀ d, (f d).name = d.name) :
    Definitions where
  toList := ds.toList.map f
  sorted := by
    rw [List.pairwise_map]
    simpa only [hf] using ds.sorted

/-- What the tree of a set is read back as. -/
def reread (ds : Definitions) : Definitions := ds.mapEach .reread fun _ => rfl

/-- The set without the patterns that are empty. -/
def pruned (ds : Definitions) : Definitions := ds.mapEach .pruned fun _ => rfl

variable {ds : Definitions}

theorem get?_mapEach (f : Definition → Definition) (hf : ∀ d, (f d).name = d.name)
    (name : String) : (ds.mapEach f hf).get? name = (ds.get? name).map f := by
  rw [get?, get?, mapEach, List.find?_map]
  simp only [Function.comp_def, hf]

theorem get?_reread (ds : Definitions) (name : String) :
    ds.reread.get? name = (ds.get? name).map (·.reread) :=
  get?_mapEach _ _ name

theorem get?_pruned (ds : Definitions) (name : String) :
    ds.pruned.get? name = (ds.get? name).map (·.pruned) :=
  get?_mapEach _ _ name

/-- The tree of a set is read back as the set without the empty patterns of appenders, unless a name
is blank. -/
theorem ofNode_toNode (h : ¬ ds.Names "") :
    ofNode ds.toNode = if ds.toList.any fun d => Text.isBlankText d.name
      then .error .nameless else .ok ds.reread := by
  have hitems : Record.items Definition.ofNode ds.toNode = .ok (ds.toList.map (·.reread)) :=
    Record.mapM_write fun d hd =>
      Definition.ofNode_toNode fun a ha hpath => h ⟨d, hd, a, ha, hpath⟩
  have hblank : ((ds.toList.map (·.reread)).any fun d => Text.isBlankText d.name)
      = ds.toList.any fun d => Text.isBlankText d.name := List.any_map
  have hset : ofList (ds.toList.map (·.reread)) = ds.reread :=
    ext_toList (toList_ofList ds.reread.sorted)
  simp only [ofNode, toNode] at hitems ⊢
  rw [hitems]
  simp only [hblank, hset]

/-- Nothing is pruned when no pattern is empty. -/
theorem pruned_eq_self (h : ∀ d ∈ ds.toList, d.WithoutEmpty) : ds.pruned = ds :=
  ext_toList (map_eq_self_iff.2 fun d hd => d.pruned_eq_self_iff.2 (h d hd))

/-- What has been pruned has no empty patterns. -/
theorem pruned_pruned (ds : Definitions) : ds.pruned.pruned = ds.pruned := by
  refine pruned_eq_self fun d hd => ?_
  obtain ⟨e, -, rfl⟩ := List.mem_map.1 hd
  refine ⟨filter_ne_empty_iff.1 (filter_filter_ne_empty e.pattern), fun a ha => ?_⟩
  obtain ⟨b, -, rfl⟩ := List.mem_map.1 ha
  exact filter_ne_empty_iff.1 (filter_filter_ne_empty b.pattern)

end Definitions

end Logging

end ConfigLog
