import ConfigLog.Tree.Record
import Mathlib.Data.List.Forall2

set_option autoImplicit false

/-! # What has been read

Reading goes step by step and stops at the first step that fails. So what has been read has been
read by all of its steps: a list item by item (`mapM_eq_ok_iff`), and a record field by field, with
whatever each field keeps (`Record.read_keeps`). A list that cannot be read fails with the first of
its items that cannot (`mapM_eq_error_iff`).
-/

namespace ConfigLog

/-- Truth values, numbers and texts: a node with one text of its own, which can be a key. -/
def Node.isLeaf : Node → Bool
  | bool _ | integer _ | real _ | string _ => true
  | null | sequence _ | mapping _ | tagged .. => false

namespace Reading

variable {ε α β : Type}

theorem map_eq_ok {f : α → β} {r : Except ε α} {b : β} (h : f <$> r = .ok b) :
    ∃ a, r = .ok a ∧ f a = b := by
  cases r with
  | error e => cases h
  | ok a => exact ⟨a, rfl, Except.ok.inj h⟩

theorem bind_eq_ok {r : Except ε α} {f : α → Except ε β} {b : β} (h : (r >>= f) = .ok b) :
    ∃ a, r = .ok a ∧ f a = .ok b := by
  cases r with
  | error e => cases h
  | ok a => exact ⟨a, rfl, h⟩

/-- A list has been read when each of its items has. -/
theorem mapM_eq_ok_iff {read : α → Except ε β} {as : List α} {bs : List β} :
    as.mapM read = .ok bs ↔ List.Forall₂ (fun a b => read a = .ok b) as bs := by
  induction as generalizing bs with
  | nil =>
      rw [List.mapM_nil, List.forall₂_nil_left_iff]
      exact ⟨fun h => (Except.ok.inj h).symm, fun h => congrArg Except.ok h.symm⟩
  | cons a as ih =>
      rw [List.mapM_cons]
      constructor
      · intro h
        obtain ⟨b, hb, h⟩ := bind_eq_ok h
        obtain ⟨cs, hcs, h⟩ := bind_eq_ok h
        obtain rfl : b :: cs = bs := Except.ok.inj h
        exact .cons hb (ih.1 hcs)
      · rintro (_ | ⟨hb, hrest⟩)
        rw [hb, ih.2 hrest]
        rfl

/-- A list cannot be read when one of its items cannot, and the first of these is why. -/
theorem mapM_eq_error_iff {read : α → Except ε β} {as : List α} {e : ε} :
    as.mapM read = .error e ↔ ∃ before a after, as = before ++ a :: after ∧
      (∀ b ∈ before, ∃ c, read b = .ok c) ∧ read a = .error e := by
  induction as with
  | nil =>
      rw [List.mapM_nil]
      refine iff_of_false (fun h => by cases h) ?_
      rintro ⟨before, a, after, h, -⟩
      simp at h
  | cons a as ih =>
      rw [List.mapM_cons]
      cases ha : read a with
      | error f =>
          -- the first item is why, so nothing that can be read comes before it
          constructor
          · intro h
            obtain rfl : f = e := Except.error.inj h
            exact ⟨[], a, as, rfl, by simp, ha⟩
          · rintro ⟨before, b, after, heq, hbefore, hb⟩
            cases before with
            | nil =>
                obtain ⟨rfl, -⟩ := List.cons.inj heq
                rw [ha] at hb
                obtain rfl := Except.error.inj hb
                rfl
            | cons c before =>
                obtain ⟨rfl, -⟩ := List.cons.inj heq
                obtain ⟨d, hd⟩ := hbefore a List.mem_cons_self
                rw [ha] at hd
                cases hd
      | ok c =>
          have hrest : (do let cs ← as.mapM read; pure (c :: cs)) = Except.error e ↔
              as.mapM read = .error e := by
            cases as.mapM read with
            | error f => exact Iff.rfl
            | ok cs => exact iff_of_false (fun h => by cases h) (fun h => by cases h)
          refine hrest.trans (ih.trans ?_)
          constructor
          · rintro ⟨before, b, after, rfl, hbefore, hb⟩
            exact ⟨a :: before, b, after, rfl, List.forall_mem_cons.2 ⟨⟨c, ha⟩, hbefore⟩, hb⟩
          · rintro ⟨before, b, after, heq, hbefore, hb⟩
            cases before with
            | nil =>
                obtain ⟨rfl, -⟩ := List.cons.inj heq
                rw [ha] at hb
                cases hb
            | cons d before =>
                obtain ⟨rfl, rfl⟩ := List.cons.inj heq
                exact ⟨before, b, after, rfl, (List.forall_mem_cons.1 hbefore).2, hb⟩

/-- Where one of two lists is divided, the other one is divided as well. -/
theorem forall₂_append_cons {R : α → β → Prop} {as : List α} {before after : List β} {b : β}
    (h : List.Forall₂ R as (before ++ b :: after)) :
    ∃ front a back, as = front ++ a :: back ∧ List.Forall₂ R front before ∧ R a b ∧
      List.Forall₂ R back after := by
  induction before generalizing as with
  | nil =>
      cases h with
      | cons hab hafter => exact ⟨[], _, _, rfl, .nil, hab, hafter⟩
  | cons c before ih =>
      cases h with
      | cons hac hrest =>
          obtain ⟨front, a, back, rfl, hfront, hab, hback⟩ := ih hrest
          exact ⟨_ :: front, a, back, rfl, .cons hac hfront, hab, hback⟩

/-- What is read item by item has been read from some item. -/
theorem exists_of_mem {R : α → β → Prop} {as : List α} {bs : List β} (h : List.Forall₂ R as bs) :
    ∀ b ∈ bs, ∃ a ∈ as, R a b := by
  induction h with
  | nil => exact fun b hb => absurd hb List.not_mem_nil
  | @cons a b as bs hab _ ih =>
      intro c hc
      rcases List.mem_cons.1 hc with rfl | hc
      · exact ⟨a, List.mem_cons_self, hab⟩
      · obtain ⟨d, hd, hdc⟩ := ih c hc
        exact ⟨d, List.mem_cons_of_mem a hd, hdc⟩

end Reading

namespace Record

open Reading

variable {α σ : Type} {fields seen : List String} {step : σ → String → Node → RecordResult σ}
  {P : σ → Prop} {s t : σ}

/-- What taking in a field keeps, reading all fields keeps. -/
theorem fold_keeps (hstep : ∀ {s name value t}, step s name value = .ok t → P s → P t)
    {entries : List (Node × Node)} (h : fold fields step seen s entries = .ok t) (hs : P s) :
    P t := by
  induction entries generalizing seen s with
  | nil => exact Except.ok.inj h ▸ hs
  | cons e entries ih =>
      obtain ⟨name, -, h⟩ := bind_eq_ok h
      split at h
      · exact ih h hs
      · split at h
        · cases h
        · obtain ⟨u, hu, h⟩ := bind_eq_ok h
          exact ih h (hstep hu hs)

theorem read_keeps {expected : String}
    (hstep : ∀ {s name value t}, step s name value = .ok t → P s → P t) {n : Node}
    (h : read expected fields step s n = .ok t) (hs : P s) : P t := by
  unfold read at h
  split at h
  · exact Except.ok.inj h ▸ hs
  · exact fold_keeps hstep h hs
  · cases h

/-- The items of a sequence have been read one by one; null has none. -/
theorem items_eq_ok_iff {item : Node → RecordResult α} {n : Node} {as : List α} :
    items item n = .ok as ↔ (n.untagged = .null ∧ as = []) ∨
      ∃ ns, n.untagged = .sequence ns ∧ List.Forall₂ (fun n a => item n = .ok a) ns as := by
  unfold items
  split
  · rename_i hnull
    simp [hnull, eq_comm]
  · rename_i ns hns
    simp [hns, mapM_eq_ok_iff]
  · rename_i hnull hseq
    simp_all

end Record

end ConfigLog
