import ConfigLog.Value.Basic
import ConfigLog.Value.Container
import Mathlib.Data.List.Nodup

set_option autoImplicit false

/-! # Sets and maps in ascending order

A set is kept as the ascending list of its items and a map as the ascending list of its entries. Two
values compare one way as the opposite of the other way (`Value.compare_swap`), and so there is only
one such list: the items of a set give it back in whatever order they are put in
(`Container.toSet_of_perm`), and so do the entries of a map (`Keyed.ofList_of_perm`).
-/

namespace ConfigLog

/-! ## The order of values -/

namespace Files

theorem Component.compare_swap (a b : Component) : b.compare a = (a.compare b).swap := by
  cases a with
  | name s =>
      cases b with
      | name t => exact Std.OrientedOrd.eq_swap
      | _ => rfl
  | _ => cases b <;> rfl

theorem Path.compareComponents_swap (as bs : List Component) :
    Path.compareComponents bs as = (Path.compareComponents as bs).swap := by
  induction as generalizing bs with
  | nil => cases bs <;> rfl
  | cons a as ih =>
      cases bs with
      | nil => rfl
      | cons b bs =>
          rw [Path.compareComponents, Path.compareComponents, Ordering.swap_then, ih bs,
            a.compare_swap b]

theorem Path.compare_swap (a b : String) : Path.compare b a = (Path.compare a b).swap :=
  Path.compareComponents_swap _ _

end Files

namespace Value

theorem compareText_swap (a b : String) : compareText b a = (compareText a b).swap := by
  unfold compareText
  by_cases hab : a < b
  · have hba : ¬ b < a := String.lt_asymm hab
    simp [hab, hba]
  · by_cases hba : b < a <;> simp [hab, hba]

mutual

theorem compare_swap (a b : Value) : compare b a = (compare a b).swap := by
  cases a with
  | whole i =>
      cases b with
      | whole j => exact Std.OrientedOrd.eq_swap
      | _ => rfl
  | bool x =>
      cases b with
      | bool y => exact Std.OrientedOrd.eq_swap
      | _ => rfl
  | char c =>
      cases b with
      | char d => exact Std.OrientedOrd.eq_swap
      | _ => rfl
  | string s =>
      cases b with
      | string t => exact compareText_swap s t
      | _ => rfl
  | path p =>
      cases b with
      | path q => exact Files.Path.compare_swap p q
      | _ => rfl
  | sequence vs =>
      cases b with
      | sequence ws => exact compareItems_swap vs ws
      | _ => rfl
  | set vs =>
      cases b with
      | set ws => exact compareItems_swap vs ws
      | _ => rfl
  | map es =>
      cases b with
      | map fs => exact compareEntries_swap es fs
      | _ => rfl
  | some v =>
      cases b with
      | some w => exact compare_swap v w
      | _ => rfl
  | none => cases b <;> rfl
  | single _ => cases b <;> rfl
  | double _ => cases b <;> rfl
  | person _ => cases b <;> rfl
  | celsius _ => cases b <;> rfl
  | definitions _ => cases b <;> rfl

theorem compareItems_swap (vs ws : List Value) :
    compareItems ws vs = (compareItems vs ws).swap := by
  cases vs with
  | nil => cases ws <;> rfl
  | cons v vs =>
      cases ws with
      | nil => rfl
      | cons w ws =>
          rw [compareItems, compareItems, Ordering.swap_then, compare_swap v w,
            compareItems_swap vs ws]

theorem compareEntries_swap (es fs : List (String × Value)) :
    compareEntries fs es = (compareEntries es fs).swap := by
  cases es with
  | nil => cases fs <;> rfl
  | cons e es =>
      obtain ⟨k, v⟩ := e
      cases fs with
      | nil => rfl
      | cons f fs =>
          obtain ⟨l, w⟩ := f
          rw [compareEntries, compareEntries, Ordering.swap_then, Ordering.swap_then,
            compareText_swap k l, compare_swap v w, compareEntries_swap es fs]

end

end Value

/-! ## Putting items in one after the other -/

section

variable {α : Type} {R : α → α → Prop} {insert : List α → α → List α} {as bs : List α}

/-- One insertion after the other keeps the items in order and loses none of them. What an insertion
does is only known for items of a given list. -/
theorem foldl_insert_spec
    (hinsert : ∀ done a, done ⊆ bs → a ∈ bs → done.Pairwise R → a ∉ done →
      (insert done a).Pairwise R ∧ (insert done a).Perm (a :: done))
    {done : List α} (has : as ⊆ bs) (hdone : done ⊆ bs) (hdistinct : (as ++ done).Nodup)
    (hsorted : done.Pairwise R) :
    (as.foldl insert done).Pairwise R ∧ (as.foldl insert done).Perm (as ++ done) := by
  induction as generalizing done with
  | nil => exact ⟨hsorted, .refl done⟩
  | cons a as ih =>
      obtain ⟨ha, has⟩ := List.cons_subset.1 has
      obtain ⟨hnew, hdistinct⟩ := List.nodup_cons.1 hdistinct
      have hfresh : a ∉ done := fun h => hnew (List.mem_append_right as h)
      obtain ⟨hsorted', hperm'⟩ := hinsert done a hdone ha hsorted hfresh
      have hmoved : (as ++ insert done a).Perm (a :: (as ++ done)) :=
        (hperm'.append_left as).trans List.perm_middle
      have hsubset : insert done a ⊆ bs := by
        intro b hb
        rcases List.mem_cons.1 (hperm'.subset hb) with rfl | hb
        · exact ha
        · exact hdone hb
      have hdistinct' : (as ++ insert done a).Nodup :=
        hmoved.nodup_iff.2 (List.nodup_cons.2 ⟨hnew, hdistinct⟩)
      obtain ⟨hend, hall⟩ := ih has hsubset hdistinct' hsorted'
      exact ⟨hend, hall.trans hmoved⟩

/-- So the insertions come to the one list that has the items in order. -/
theorem foldl_insert_of_perm (hperm : as.Perm bs) (hbs : bs.Pairwise R)
    (hasymm : ∀ a ∈ bs, ∀ b ∈ bs, R a b → ¬ R b a)
    (hinsert : ∀ done a, done ⊆ bs → a ∈ bs → done.Pairwise R → a ∉ done →
      (insert done a).Pairwise R ∧ (insert done a).Perm (a :: done)) :
    as.foldl insert [] = bs := by
  have hnodup : bs.Nodup := by
    refine hbs.imp_of_mem fun {a b} ha hb hab heq => ?_
    subst heq
    exact hasymm a ha a ha hab hab
  have hdistinct : (as ++ []).Nodup := by
    simpa using hperm.nodup_iff.2 hnodup
  obtain ⟨hsorted, hall⟩ :=
    foldl_insert_spec hinsert hperm.subset (List.nil_subset bs) hdistinct .nil
  rw [List.append_nil] at hall
  have hall := hall.trans hperm
  refine hall.eq_of_pairwise (fun a b ha hb hab hba => ?_) hsorted hbs
  exact absurd hba (hasymm a (hall.subset ha) b hb hab)

end

namespace Container

variable {α : Type} {order : α → α → Ordering}

/-- Putting an item into its place, where no item has the same place. -/
theorem insertItem_spec (hswap : ∀ a b, order b a = (order a b).swap) (last : Bool) {a : α}
    {done : List α}
    (htrans : ∀ b ∈ done, ∀ c ∈ done, order a b = .lt → order b c = .lt → order a c = .lt)
    (hne : ∀ b ∈ done, order a b ≠ .eq) (hdone : done.Pairwise fun b c => order b c = .lt) :
    (insertItem order last a done).Pairwise (fun b c => order b c = .lt) ∧
      (insertItem order last a done).Perm (a :: done) := by
  induction done with
  | nil => exact ⟨List.pairwise_singleton _ a, .refl _⟩
  | cons b done ih =>
      obtain ⟨hb, hdone⟩ := List.pairwise_cons.1 hdone
      have hmem : ∀ c ∈ done, c ∈ b :: done := fun c hc => List.mem_cons_of_mem b hc
      rw [insertItem]
      cases hab : order a b with
      | eq => exact absurd hab (hne b List.mem_cons_self)
      | lt =>
          refine ⟨List.pairwise_cons.2 ⟨?_, List.pairwise_cons.2 ⟨hb, hdone⟩⟩, .refl _⟩
          intro c hc
          rcases List.mem_cons.1 hc with rfl | hc
          · exact hab
          · exact htrans b List.mem_cons_self c (hmem c hc) hab (hb c hc)
      | gt =>
          obtain ⟨hsorted, hperm⟩ := ih
            (fun c hc d hd => htrans c (hmem c hc) d (hmem d hd))
            (fun c hc => hne c (hmem c hc)) hdone
          refine ⟨List.pairwise_cons.2 ⟨?_, hsorted⟩, ?_⟩
          · intro c hc
            rcases List.mem_cons.1 (hperm.subset hc) with rfl | hc
            · rw [hswap, hab]
              rfl
            · exact hb c hc
          · exact (hperm.cons b).trans (.swap a b done)

theorem order_self (hswap : ∀ a b, order b a = (order a b).swap) (a : α) : order a a = .eq := by
  have h := hswap a a
  cases hcase : order a a <;> simp [hcase] at h ⊢

/-- Items of an ascending list compare as their places do. -/
theorem order_getElem (hswap : ∀ a b, order b a = (order a b).swap) {bs : List α}
    (hbs : bs.Pairwise fun a b => order a b = .lt) {i j : Nat} (hi : i < bs.length)
    (hj : j < bs.length) : order bs[i] bs[j] = .lt ↔ i < j := by
  constructor
  · intro hlt
    rcases Nat.lt_trichotomy i j with h | rfl | h
    · exact h
    · rw [order_self hswap] at hlt
      cases hlt
    · have hgt := List.pairwise_iff_getElem.1 hbs j i hj hi h
      rw [hswap, hlt] at hgt
      cases hgt
  · exact List.pairwise_iff_getElem.1 hbs i j hi hj

/-- The items of an ascending list come back in their order, whatever the order is that they are put
in. The order only has to be the opposite of itself the other way: for items of the list, all else
follows from their places. -/
theorem toSet_of_perm (hswap : ∀ a b, order b a = (order a b).swap) (last : Bool) {as bs : List α}
    (hperm : as.Perm bs) (hbs : bs.Pairwise fun a b => order a b = .lt) :
    toSet order last as = bs := by
  refine foldl_insert_of_perm hperm hbs (fun a _ b _ hab hba => ?_) ?_
  · rw [hswap, hab] at hba
    cases hba
  · intro done a hdone ha hsorted hfresh
    refine insertItem_spec hswap last ?_ ?_ hsorted
    · intro b hb c hc
      obtain ⟨i, hi, rfl⟩ := List.getElem_of_mem ha
      obtain ⟨j, hj, rfl⟩ := List.getElem_of_mem (hdone hb)
      obtain ⟨k, hk, rfl⟩ := List.getElem_of_mem (hdone hc)
      rw [order_getElem hswap hbs hi hj, order_getElem hswap hbs hj hk,
        order_getElem hswap hbs hi hk]
      exact Nat.lt_trans
    · intro b hb heq
      obtain ⟨i, hi, rfl⟩ := List.getElem_of_mem ha
      obtain ⟨j, hj, rfl⟩ := List.getElem_of_mem (hdone hb)
      rcases Nat.lt_trichotomy i j with h | rfl | h
      · rw [(order_getElem hswap hbs hi hj).2 h] at heq
        cases heq
      · exact hfresh hb
      · rw [hswap, (order_getElem hswap hbs hj hi).2 h] at heq
        cases heq

end Container

namespace Keyed

variable {α : Type}

theorem perm_insert {key : String} {a : α} {es : List (String × α)} (h : ∀ e ∈ es, e.1 ≠ key) :
    (insert key a es).Perm ((key, a) :: es) := by
  induction es with
  | nil => exact .refl _
  | cons e es ih =>
      obtain ⟨k, b⟩ := e
      have hne : k ≠ key := h (k, b) List.mem_cons_self
      have hrest := ih fun e he => h e (List.mem_cons_of_mem (k, b) he)
      rw [insert]
      split
      · exact .refl _
      · split
        · exact (hrest.cons (k, b)).trans (.swap (key, a) (k, b) es)
        · rename_i h1 h2
          exact absurd (String.le_antisymm h1 h2) hne

/-- The entries of a map come back in their order, whatever the order is that they are put in. -/
theorem ofList_of_perm {es fs : List (String × α)} (hperm : fs.Perm es)
    (hes : es.Pairwise fun d e => d.1 < e.1) : ofList fs = es := by
  refine foldl_insert_of_perm hperm hes (fun d _ e _ hde => String.lt_asymm hde) ?_
  intro done e hdone he hsorted hfresh
  refine ⟨pairwise_insert hsorted, perm_insert fun d hd hkey => hfresh ?_⟩
  have hd' := lookup_of_mem hes (hdone hd)
  rw [hkey, lookup_of_mem hes he] at hd'
  rw [Prod.ext hkey (Option.some.inj hd').symm] at hd
  exact hd

end Keyed

end ConfigLog
