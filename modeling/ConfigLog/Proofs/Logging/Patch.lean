import ConfigLog.Proofs.Logging.Definitions
import ConfigLog.Proofs.Logging.Sameness

set_option autoImplicit false

/-! # Plans as patches

Replaying the steps of a plan turns the old set of definitions into the new one
(`same_replay_plan`): a step that applies a definition stores it, and one that disables a name
removes its definition. What a replay makes of a name is settled by the step for that name, of which
a plan has one at most. So plans are exact: they are empty just when the sets are the same, and
plans in a row come to the same as the plan from the first set to the last one (`plan_patches`).
Sets are the same here as everywhere: files are compared by their paths, however these are spelled.
-/

namespace ConfigLog.Logging

/-! ## Replaying steps -/

/-- Two definitions of one name differ in a field: in the level, in the pattern, or in the
appenders, which have to correspond one by one in their destinations, levels and patterns. -/
def Definition.Differs (a b : Definition) : Prop :=
  a.level ≠ b.level ∨ a.pattern ≠ b.pattern ∨
    ¬ List.Forall₂ (fun x y => x.destination.same y.destination = true ∧ x.level = y.level ∧
      x.pattern = y.pattern) a.appenders b.appenders

namespace Definitions

/-- The set without the definition of a name. -/
def erase (ds : Definitions) (name : String) : Definitions :=
  ⟨ds.toList.filter (·.name != name), ds.sorted.filter _⟩

/-- The set after a step: an applied definition is stored, and a disabled name has none. -/
def step (ds : Definitions) : Action → Definitions
  | .apply d => ds.insert d
  | .disable name => ds.erase name

/-- The set after some steps. -/
def replay (ds : Definitions) (as : List Action) : Definitions := as.foldl step ds

end Definitions

/-- The steps of the plans from each set of a chain to the next one. -/
def plansAlong (old : Definitions) : List Definitions → List Action
  | [] => []
  | new :: rest => plan old new ++ plansAlong new rest

/-- The definition that a name has after a step for it. -/
def Action.outcome : Action → Option Definition
  | apply d => some d
  | disable _ => none

/-! ## What a replay makes of a name -/

namespace Definitions

variable {ds es : Definitions} {d e : Definition} {name : String}

theorem get?_erase (ds : Definitions) (name other : String) :
    (ds.erase name).get? other = if name = other then none else ds.get? other := by
  rw [get?, erase, List.find?_filter]
  by_cases h : name = other
  · subst h
    rw [if_pos rfl, List.find?_eq_none]
    simp
  · rw [if_neg h, get?]
    congr 1
    funext d
    by_cases hd : d.name = other
    · simp [hd, Ne.symm h]
    · simp [hd]

theorem get?_step (ds : Definitions) (a : Action) (name : String) :
    (ds.step a).get? name = if a.name = name then a.outcome else ds.get? name := by
  cases a with
  | apply d => exact ds.get?_insert d name
  | disable other => exact ds.get?_erase other name

/-- Steps for other names leave a name alone. -/
theorem get?_replay_of_ne {as : List Action} (h : ∀ a ∈ as, a.name ≠ name) (ds : Definitions) :
    (ds.replay as).get? name = ds.get? name := by
  induction as generalizing ds with
  | nil => rfl
  | cons a as ih =>
      have hrest : (ds.replay (a :: as)).get? name = (ds.step a).get? name :=
        ih (fun b hb => h b (List.mem_cons_of_mem a hb)) (ds.step a)
      rw [hrest, get?_step, if_neg (h a List.mem_cons_self)]

/-- The only step for a name settles what the name has. -/
theorem get?_replay_of_mem {as : List Action} (hn : (as.map (·.name)).Nodup) {a : Action}
    (ha : a ∈ as) (ds : Definitions) : (ds.replay as).get? a.name = a.outcome := by
  induction as generalizing ds with
  | nil => cases ha
  | cons b as ih =>
      obtain ⟨hb, has⟩ := List.nodup_cons.1 hn
      show ((ds.step b).replay as).get? a.name = a.outcome
      rcases List.mem_cons.1 ha with rfl | ha
      · have hothers : ∀ c ∈ as, c.name ≠ a.name := fun c hc heq =>
          hb (List.mem_map.2 ⟨c, hc, heq⟩)
        rw [get?_replay_of_ne hothers, get?_step, if_pos rfl]
      · exact ih has ha (ds.step b)

/-! ## Sets that are the same -/

theorem map_meaning_get? (ds : Definitions) (name : String) :
    (ds.get? name).map (·.meaning)
      = (ds.toList.map (·.meaning)).find? fun x => x.1 == name := by
  rw [List.find?_map]
  rfl

/-- Sets are the same if every name has the same in both. -/
theorem same_iff_get? : ds.same es = true ↔
    ∀ name, (ds.get? name).map (·.meaning) = (es.get? name).map (·.meaning) := by
  constructor
  · intro h name
    rw [map_meaning_get?, map_meaning_get?, same_iff.1 h]
  · intro h
    -- both lists of meanings are ascending by names, so having the same members they are equal
    have hsorted : ∀ ds : Definitions,
        (ds.toList.map (·.meaning)).Pairwise fun x y => x.1 < y.1 := by
      intro ds
      rw [List.pairwise_map]
      exact ds.sorted
    have hnodup : ∀ ds : Definitions, (ds.toList.map (·.meaning)).Nodup := by
      intro ds
      refine (hsorted ds).imp fun {x y} hlt heq => ?_
      exact String.lt_irrefl _ (heq ▸ hlt)
    have hmem : ∀ (ds : Definitions) x, x ∈ ds.toList.map (·.meaning) ↔
        (ds.get? x.1).map (·.meaning) = some x := by
      intro ds x
      rw [List.mem_map, Option.map_eq_some_iff]
      constructor
      · rintro ⟨d, hd, rfl⟩
        exact ⟨d, get?_name_of_mem hd, rfl⟩
      · rintro ⟨d, hd, hx⟩
        exact ⟨d, (mem_of_get? hd).1, hx⟩
    have hperm : (ds.toList.map (·.meaning)).Perm (es.toList.map (·.meaning)) := by
      refine (List.perm_ext_iff_of_nodup (hnodup ds) (hnodup es)).2 fun x => ?_
      rw [hmem, hmem, h]
    refine same_iff.2 (hperm.eq_of_pairwise (fun x y _ _ hxy hyx => ?_) (hsorted ds) (hsorted es))
    exact absurd (String.lt_trans hxy hyx) (String.lt_irrefl _)

theorem agrees_iff : ds.agrees d = true ↔ ∃ e, ds.get? d.name = some e ∧ e.same d = true := by
  unfold agrees
  cases ds.get? d.name <;> simp

end Definitions

theorem Definition.same_eq_false_iff {a b : Definition} (hname : a.name = b.name) :
    a.same b = false ↔ a.Differs b := by
  have happenders : sameAppenders a.appenders b.appenders = true ↔
      List.Forall₂ (fun x y => x.destination.same y.destination = true ∧ x.level = y.level ∧
        x.pattern = y.pattern) a.appenders b.appenders := by
    generalize a.appenders = as
    generalize b.appenders = bs
    induction as generalizing bs with
    | nil => cases bs <;> simp [sameAppenders]
    | cons x as ih =>
        cases bs <;> simp [sameAppenders, AppenderDefinition.same, ih, and_assoc]
  rw [Differs, ← happenders, Definition.same, hname]
  by_cases hlevel : a.level = b.level <;> by_cases hpattern : a.pattern = b.pattern <;>
    simp [hlevel, hpattern]

theorem agrees_eq_false_iff {ds : Definitions} {d : Definition} :
    ds.agrees d = false ↔ ∀ e, ds.get? d.name = some e → e.Differs d := by
  rw [← Bool.not_eq_true, Definitions.agrees_iff, not_exists]
  refine forall_congr' fun e => ?_
  rw [not_and]
  refine imp_congr_right fun he => ?_
  rw [Bool.not_eq_true, Definition.same_eq_false_iff (Definitions.mem_of_get? he).2]

/-! ## Plans -/

variable {old new cur : Definitions} {name : String}

/-- A plan turns every set that is the same as the old one into one that is the same as the new
one. -/
theorem same_replay_plan (h : cur.same old = true) (new : Definitions) :
    (cur.replay (plan old new)).same new = true := by
  rw [Definitions.same_iff_get?] at h ⊢
  intro name
  have hn := nodup_plan old new
  cases hnew : new.get? name with
  | some d =>
      obtain ⟨hd, rfl⟩ := Definitions.mem_of_get? hnew
      cases hagrees : old.agrees d with
      | true =>
          -- nothing happens to the name, and what it has is the same already
          obtain ⟨e, he, hsame⟩ := Definitions.agrees_iff.1 hagrees
          rw [Definitions.get?_replay_of_ne (ne_of_agrees hd hagrees), h, he]
          exact congrArg some (Definition.same_iff.1 hsame)
      | false =>
          have hstep : .apply d ∈ plan old new := mem_plan_apply.2 ⟨hd, hagrees⟩
          rw [show d.name = (Action.apply d).name from rfl,
            Definitions.get?_replay_of_mem hn hstep]
          rfl
  | none =>
      have hgone : new.contains name = false := by
        rw [Definitions.contains, hnew]
        rfl
      cases hold : old.get? name with
      | some e =>
          have hstep : .disable name ∈ plan old new :=
            mem_plan_disable.2 ⟨⟨e, Definitions.mem_of_get? hold⟩, hgone⟩
          rw [show name = (Action.disable name).name from rfl,
            Definitions.get?_replay_of_mem hn hstep]
          rfl
      | none =>
          have hnothing : ∀ a ∈ plan old new, a.name ≠ name := by
            rintro (d | other) ha rfl
            · have hd := Definitions.get?_name_of_mem (mem_plan_apply.1 ha).1
              exact absurd (hd.symm.trans hnew) (Option.some_ne_none d)
            · obtain ⟨e, he, rfl⟩ := (mem_plan_disable.1 ha).1
              have he := Definitions.get?_name_of_mem he
              exact absurd (he.symm.trans hold) (Option.some_ne_none e)
          rw [Definitions.get?_replay_of_ne hnothing, h, hold]

theorem Definitions.same_self (ds : Definitions) : ds.same ds = true := Definitions.same_iff.2 rfl

theorem plan_eq_nil_iff : plan old new = [] ↔ old.same new = true := by
  constructor
  · intro h
    have hreplay := same_replay_plan old.same_self new
    rwa [h] at hreplay
  · intro h
    rw [List.eq_nil_iff_forall_not_mem]
    have hget := Definitions.same_iff_get?.1 h
    intro a ha
    cases a with
    | apply d =>
        obtain ⟨hd, hnot⟩ := mem_plan_apply.1 ha
        have hsame := hget d.name
        rw [Definitions.get?_name_of_mem hd] at hsame
        obtain ⟨e, he, hmeaning⟩ := Option.map_eq_some_iff.1 hsame
        rw [Definitions.agrees_iff.2 ⟨e, he, Definition.same_iff.2 hmeaning⟩] at hnot
        cases hnot
    | disable name =>
        obtain ⟨⟨e, he, rfl⟩, hnot⟩ := mem_plan_disable.1 ha
        have hsame := hget e.name
        rw [Definitions.get?_name_of_mem he] at hsame
        obtain ⟨d, hd, -⟩ := Option.map_eq_some_iff.1 hsame.symm
        rw [Definitions.contains, hd] at hnot
        cases hnot

/-- Plans in a row lead to a set that is the same as the last one of the chain. -/
theorem same_replay_plansAlong (h : cur.same old = true) (rest : List Definitions) :
    (cur.replay (plansAlong old rest)).same (rest.getLastD old) = true := by
  induction rest generalizing cur old with
  | nil => exact h
  | cons new rest ih =>
      rw [plansAlong, Definitions.replay, List.foldl_append, List.getLastD_cons]
      exact ih (same_replay_plan h new)

/-- A plan consists of the steps that apply the definitions of the new set that the old one lacks or
has differently, and then of the steps that disable the names that only the old set has, both in
name order and at most one for a name. It has no step if and only if the sets are the same. Replayed
on the old set it gives the new one, and so do the plans along a chain of sets: they lead to the
same as the plan from the first set of the chain to the last one. -/
theorem plan_patches (old new : Definitions) :
    (plan old new = [] ↔ old.same new = true) ∧
    ((plan old new).map (·.name)).Nodup ∧
    (∃ (applied : List Definition) (disabled : List String),
      plan old new = applied.map .apply ++ disabled.map .disable ∧
      applied.Pairwise (fun d e => d.name < e.name) ∧
      (∀ d, d ∈ applied ↔ d ∈ new.toList ∧ ∀ e, old.get? d.name = some e → e.Differs d) ∧
      disabled.Pairwise (· < ·) ∧
      ∀ name, name ∈ disabled ↔ old.contains name = true ∧ new.contains name = false) ∧
    (old.replay (plan old new)).same new = true ∧
    ∀ rest : List Definitions,
      (old.replay (plansAlong old rest)).same (rest.getLastD old) = true ∧
      (old.replay (plansAlong old rest)).same
        (old.replay (plan old (rest.getLastD old))) = true := by
  refine ⟨plan_eq_nil_iff, nodup_plan old new, ?_, same_replay_plan old.same_self new,
    fun rest => ?_⟩
  · refine ⟨new.toList.filter fun d => !old.agrees d,
      (old.toList.filter fun d => !new.contains d.name).map (·.name), ?_, new.sorted.filter _, ?_,
      ?_, ?_⟩
    · rw [plan, List.map_map]
      rfl
    · intro d
      rw [List.mem_filter, Bool.not_eq_true', agrees_eq_false_iff]
    · rw [List.pairwise_map]
      exact old.sorted.filter _
    · intro name
      rw [Definitions.contains_iff]
      simp only [List.mem_map, List.mem_filter, Bool.not_eq_true']
      constructor
      · rintro ⟨d, ⟨hd, hgone⟩, rfl⟩
        exact ⟨⟨d, hd, rfl⟩, hgone⟩
      · rintro ⟨⟨d, hd, rfl⟩, hgone⟩
        exact ⟨d, ⟨hd, hgone⟩, rfl⟩
  · have hchain := same_replay_plansAlong old.same_self rest
    have hdirect := same_replay_plan old.same_self (rest.getLastD old)
    refine ⟨hchain, ?_⟩
    rw [Definitions.same_iff] at hchain hdirect ⊢
    exact hchain.trans hdirect.symm

/-- Another spelling of a path is no difference, so only the level that changes, the name that comes
and the name that goes need steps. -/
example :
    let kept (path : String) : Definition :=
      { name := "a", appenders := [{ destination := .file path }] }
    plan (.ofList [kept "logs//a.log", { name := "b" }, { name := "c" }])
        (.ofList [kept "logs/a.log", { name := "b", level := some .warn }, { name := "d" }])
      = [.apply { name := "b", level := some .warn }, .apply { name := "d" }, .disable "c"] := by
  decide

end ConfigLog.Logging
