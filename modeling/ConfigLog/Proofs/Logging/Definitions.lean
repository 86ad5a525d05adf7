import ConfigLog.Logging.Plan
import Mathlib.Data.List.Nodup

set_option autoImplicit false

/-! # Sets of definitions and plans

A set has at most one definition for a name, so looking a name up finds the member of that name
(`get?_eq_some_iff`), a set is told by what is found in it (`ext_get?`), and a plan has at most one
step for a name (`nodup_plan`).
-/

namespace ConfigLog.Logging

theorem find?_insertByName (d : Definition) (ds : List Definition) (name : String) :
    (insertByName d ds).find? (·.name == name)
      = if d.name = name then some d else ds.find? (·.name == name) := by
  induction ds with
  | nil =>
      by_cases hd : d.name = name <;> simp [insertByName, hd]
  | cons e ds ih =>
      rw [insertByName]
      split
      · by_cases hd : d.name = name <;> simp [hd]
      · split
        · rename_i hlt
          by_cases he : e.name = name
          · -- the new definition comes behind, so it has another name
            have hd : d.name ≠ name := by
              rintro rfl
              exact String.lt_irrefl _ (he ▸ hlt)
            simp [he, hd]
          · simp [he, ih]
        · rename_i h1 h2
          have hname : d.name = e.name := String.le_antisymm h2 h1
          by_cases hd : d.name = name <;> simp [hd, ← hname]

namespace Definitions

variable {ds : Definitions} {d : Definition} {name : String}

/-! ## Members by their names -/

theorem nodup_names (ds : Definitions) : (ds.toList.map (·.name)).Nodup := by
  rw [List.Nodup, List.pairwise_map]
  exact ds.sorted.imp fun {d e} h (heq : d.name = e.name) => String.lt_irrefl _ (heq ▸ h)

theorem eq_of_name_eq {e : Definition} (hd : d ∈ ds.toList) (he : e ∈ ds.toList)
    (h : d.name = e.name) : d = e :=
  List.inj_on_of_nodup_map ds.nodup_names hd he h

theorem mem_of_get? (h : ds.get? name = some d) : d ∈ ds.toList ∧ d.name = name :=
  ⟨List.mem_of_find?_eq_some h, by simpa using List.find?_some h⟩

theorem get?_name_of_mem (h : d ∈ ds.toList) : ds.get? d.name = some d := by
  cases hg : ds.get? d.name with
  | none =>
      have hn := List.find?_eq_none.1 hg d h
      simp at hn
  | some e =>
      obtain ⟨he, hname⟩ := mem_of_get? hg
      rw [eq_of_name_eq he h hname]

theorem get?_eq_some_iff : ds.get? name = some d ↔ d ∈ ds.toList ∧ d.name = name :=
  ⟨mem_of_get?, fun ⟨hd, hname⟩ => hname ▸ get?_name_of_mem hd⟩

theorem contains_iff : ds.contains name = true ↔ ∃ d ∈ ds.toList, d.name = name := by
  rw [contains, Option.isSome_iff_exists]
  exact exists_congr fun _ => get?_eq_some_iff

theorem get?_insert (ds : Definitions) (d : Definition) (name : String) :
    (ds.insert d).get? name = if d.name = name then some d else ds.get? name :=
  find?_insertByName d ds.toList name

/-! ## Sets with the same definitions -/

variable {es : Definitions}

theorem ext_toList (h : ds.toList = es.toList) : ds = es := by
  cases ds
  cases es
  cases h
  rfl

theorem ext_get? (h : ∀ name, ds.get? name = es.get? name) : ds = es := by
  have hmem : ∀ d, d ∈ ds.toList ↔ d ∈ es.toList := by
    intro d
    have hd : d ∈ ds.toList ↔ ds.get? d.name = some d := by simp [get?_eq_some_iff]
    have he : d ∈ es.toList ↔ es.get? d.name = some d := by simp [get?_eq_some_iff]
    rw [hd, he, h]
  have hperm : ds.toList.Perm es.toList :=
    (List.perm_ext_iff_of_nodup ds.nodup_names.of_map es.nodup_names.of_map).2 hmem
  refine ext_toList (hperm.eq_of_pairwise (fun d e _ _ hde hed => ?_) ds.sorted es.sorted)
  exact absurd (String.lt_trans hde hed) (String.lt_irrefl _)

end Definitions

/-! ## Plans -/

/-- The names that the steps of a list apply definitions to. -/
def appliedNames (as : List Action) : List String :=
  as.filterMap fun
    | .apply d => some d.name
    | .disable _ => none

/-- The names that the steps of a list disable. -/
def disabledNames (as : List Action) : List String :=
  as.filterMap fun
    | .apply _ => none
    | .disable name => some name

theorem appliedNames_subset (as : List Action) : appliedNames as ⊆ as.map (·.name) := by
  intro n hn
  obtain ⟨a, ha, hname⟩ := List.mem_filterMap.1 hn
  cases a with
  | apply d => exact Option.some.inj hname ▸ List.mem_map_of_mem ha
  | disable name => cases hname

variable {old new : Definitions}

theorem mem_plan_apply {d : Definition} :
    .apply d ∈ plan old new ↔ d ∈ new.toList ∧ old.agrees d = false := by
  simp [plan]

theorem mem_plan_disable {name : String} :
    .disable name ∈ plan old new ↔
      (∃ d ∈ old.toList, d.name = name) ∧ new.contains name = false := by
  simp only [plan, List.mem_append, List.mem_map, List.mem_filter, reduceCtorEq, and_false,
    exists_false, false_or, Action.disable.injEq, Bool.not_eq_true']
  constructor
  · rintro ⟨d, ⟨hd, hn⟩, rfl⟩
    exact ⟨⟨d, hd, rfl⟩, hn⟩
  · rintro ⟨⟨d, hd, rfl⟩, hn⟩
    exact ⟨d, ⟨hd, hn⟩, rfl⟩

/-- A plan has at most one step for a name. -/
theorem nodup_plan (old new : Definitions) : ((plan old new).map (·.name)).Nodup := by
  rw [plan, List.map_append, List.map_map, List.map_map]
  refine List.nodup_append.2 ⟨?_, ?_, ?_⟩
  · exact new.nodup_names.sublist (List.filter_sublist.map _)
  · exact old.nodup_names.sublist (List.filter_sublist.map _)
  · -- what is disabled has no definition in the new set
    intro n hn n' hn' heq
    subst heq
    obtain ⟨d, hd, rfl⟩ := List.mem_map.1 hn
    obtain ⟨e, he, hname⟩ := List.mem_map.1 hn'
    have hnew : new.contains e.name = true :=
      Definitions.contains_iff.2 ⟨d, (List.mem_filter.1 hd).1, hname.symm⟩
    have hnot := (List.mem_filter.1 he).2
    rw [hnew] at hnot
    cases hnot

/-- The name of a definition that is asked for already has no step. -/
theorem ne_of_agrees {d : Definition} (hd : d ∈ new.toList) (hagrees : old.agrees d = true) :
    ∀ a ∈ plan old new, a.name ≠ d.name := by
  intro a ha hname
  cases a with
  | apply e =>
      obtain ⟨he, hnot⟩ := mem_plan_apply.1 ha
      rw [Definitions.eq_of_name_eq he hd hname, hagrees] at hnot
      cases hnot
  | disable name =>
      have hnot := (mem_plan_disable.1 ha).2
      have hin : new.contains name = true := Definitions.contains_iff.2 ⟨d, hd, hname.symm⟩
      rw [hin] at hnot
      cases hnot

end ConfigLog.Logging
