import ConfigLog.Logging.Definition

set_option autoImplicit false

/-! # When definitions are the same

Two definitions ask for the same if they agree in all but the spelling of paths. What of a
definition counts is its `meaning`, and sameness is equality of meanings (`Definition.same_iff`).
-/

namespace ConfigLog.Files

instance : ReflBEq Component where
  rfl {a} := by cases a <;> simp [BEq.beq, instBEqComponent.beq]

instance : LawfulBEq Component where
  eq_of_beq {a b} h := by
    cases a <;> cases b <;> simp_all [BEq.beq, instBEqComponent.beq]

theorem Path.same_iff {a b : String} :
    Path.same a b = true ↔ Path.components a = Path.components b := by
  rw [Path.same, beq_iff_eq]

end ConfigLog.Files

namespace ConfigLog.Logging

/-- What of a destination counts: nothing for standard output, the components of its path for a
file. -/
def Destination.meaning : Destination → Option (List Files.Component)
  | stdout => none
  | file path => some (Files.Path.components path)

theorem Destination.same_iff {a b : Destination} : a.same b = true ↔ a.meaning = b.meaning := by
  cases a <;> cases b <;> simp [Destination.same, Destination.meaning, Files.Path.same_iff]

/-- What of an appender's definition counts. -/
def AppenderDefinition.meaning (a : AppenderDefinition) :
    Option (List Files.Component) × Option Level × Option String :=
  (a.destination.meaning, a.level, a.pattern)

theorem AppenderDefinition.same_iff {a b : AppenderDefinition} :
    a.same b = true ↔ a.meaning = b.meaning := by
  simp [AppenderDefinition.same, AppenderDefinition.meaning, Destination.same_iff, and_assoc]

theorem sameAppenders_iff {as bs : List AppenderDefinition} :
    sameAppenders as bs = true ↔ as.map (·.meaning) = bs.map (·.meaning) := by
  induction as generalizing bs with
  | nil => cases bs <;> simp [sameAppenders]
  | cons a as ih => cases bs <;> simp [sameAppenders, AppenderDefinition.same_iff, ih]

theorem sameAppenders_map {f : AppenderDefinition → AppenderDefinition}
    (hf : ∀ a b, a.same b = true → (f a).same (f b) = true) {as bs : List AppenderDefinition}
    (h : sameAppenders as bs = true) : sameAppenders (as.map f) (bs.map f) = true := by
  induction as generalizing bs with
  | nil => cases bs <;> simp_all [sameAppenders]
  | cons a as ih =>
      cases bs with
      | nil => simp [sameAppenders] at h
      | cons b bs =>
          simp only [sameAppenders, Bool.and_eq_true, List.map_cons] at h ⊢
          exact ⟨hf a b h.1, ih h.2⟩

/-- What of a definition counts. -/
def Definition.meaning (d : Definition) : String × Option Level × Option String ×
    List (Option (List Files.Component) × Option Level × Option String) :=
  (d.name, d.level, d.pattern, d.appenders.map (·.meaning))

theorem Definition.same_iff {a b : Definition} : a.same b = true ↔ a.meaning = b.meaning := by
  simp [Definition.same, Definition.meaning, sameAppenders_iff, and_assoc]

theorem Definition.same_refl (a : Definition) : a.same a = true := Definition.same_iff.2 rfl

theorem Definition.same_trans {a b c : Definition} (h : a.same b = true) (h' : b.same c = true) :
    a.same c = true :=
  Definition.same_iff.2 ((Definition.same_iff.1 h).trans (Definition.same_iff.1 h'))

theorem Definition.name_of_same {a b : Definition} (h : a.same b = true) : a.name = b.name :=
  congrArg (·.1) (Definition.same_iff.1 h)

theorem Definition.level_of_same {a b : Definition} (h : a.same b = true) : a.level = b.level :=
  congrArg (·.2.1) (Definition.same_iff.1 h)

theorem Definition.pattern_of_same {a b : Definition} (h : a.same b = true) :
    a.pattern = b.pattern :=
  congrArg (·.2.2.1) (Definition.same_iff.1 h)

theorem Definition.appenders_of_same {a b : Definition} (h : a.same b = true) :
    sameAppenders a.appenders b.appenders = true :=
  sameAppenders_iff.2 (congrArg (·.2.2.2) (Definition.same_iff.1 h))

namespace Definitions

theorem sameList_iff {as bs : List Definition} :
    sameList as bs = true ↔ as.map (·.meaning) = bs.map (·.meaning) := by
  induction as generalizing bs with
  | nil => cases bs <;> simp [sameList]
  | cons a as ih => cases bs <;> simp [sameList, Definition.same_iff, ih]

theorem same_iff {a b : Definitions} :
    a.same b = true ↔ a.toList.map (·.meaning) = b.toList.map (·.meaning) :=
  sameList_iff

/-- Sets that are the same have the same definitions. -/
theorem exists_same_of_mem {a b : Definitions} (h : a.same b = true) {d : Definition}
    (hd : d ∈ a.toList) : ∃ e ∈ b.toList, d.same e = true := by
  have hmem : d.meaning ∈ b.toList.map (·.meaning) := by
    rw [← same_iff.1 h]
    exact List.mem_map_of_mem hd
  obtain ⟨e, he, hde⟩ := List.mem_map.1 hmem
  exact ⟨e, he, Definition.same_iff.2 hde.symm⟩

end Definitions

end ConfigLog.Logging
