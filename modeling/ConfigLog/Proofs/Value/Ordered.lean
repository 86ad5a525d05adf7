import ConfigLog.Proofs.Value.Integers
import Mathlib.Data.List.Induction

set_option autoImplicit false

/-! # Orders among the items of sets

A set is put together by comparing its items. That makes the set of the items when the order is the
opposite of itself the other way and transitive among them (`Container.isSetOf_toSet`). The order of
values is such an order among the values of one plain kind (`Kind.orders_compare`), and every value
that is read for a plain kind is one of its values (`Kind.has_of_ofNode`).
-/

namespace ConfigLog

/-! ## Orders -/

/-- The order is the opposite of itself the other way, and transitive among some things. -/
structure Orders {α : Type} (order : α → α → Ordering) (P : α → Prop) : Prop where
  swap : ∀ a b, order b a = (order a b).swap
  trans : ∀ {a b c}, P a → P b → P c → (order a b).isLE = true → (order b c).isLE = true →
    (order a c).isLE = true

namespace Orders

variable {α β : Type} {order : α → α → Ordering} {P : α → Prop} {a b c : α}

theorem lt_of_lt_of_isLE (h : Orders order P) (ha : P a) (hb : P b) (hc : P c)
    (hab : order a b = .lt) (hbc : (order b c).isLE = true) : order a c = .lt := by
  have hle := h.trans ha hb hc (by rw [hab]; rfl) hbc
  cases hac : order a c with
  | lt => rfl
  | eq =>
      -- the second would not be above the first
      have hca : (order c a).isLE = true := by
        rw [h.swap, hac]
        rfl
      have hba := h.trans hb hc ha hbc hca
      rw [h.swap, hab] at hba
      cases hba
  | gt =>
      rw [hac] at hle
      cases hle

theorem lt_of_isLE_of_lt (h : Orders order P) (ha : P a) (hb : P b) (hc : P c)
    (hab : (order a b).isLE = true) (hbc : order b c = .lt) : order a c = .lt := by
  have hle := h.trans ha hb hc hab (by rw [hbc]; rfl)
  cases hac : order a c with
  | lt => rfl
  | eq =>
      have hca : (order c a).isLE = true := by
        rw [h.swap, hac]
        rfl
      have hcb := h.trans hc ha hb hca hab
      rw [h.swap, hbc] at hcb
      cases hcb
  | gt =>
      rw [hac] at hle
      cases hle

theorem eq_trans (h : Orders order P) (ha : P a) (hb : P b) (hc : P c) (hab : order a b = .eq)
    (hbc : order b c = .eq) : order a c = .eq := by
  have hac := h.trans ha hb hc (by rw [hab]; rfl) (by rw [hbc]; rfl)
  have hca := h.trans hc hb ha (by rw [h.swap, hbc]; rfl) (by rw [h.swap, hab]; rfl)
  rw [h.swap] at hca
  cases hcase : order a c with
  | eq => rfl
  | lt => rw [hcase] at hca; cases hca
  | gt => rw [hcase] at hac; cases hac

/-- Comparing first by one order and then by another is transitive as well. -/
theorem then_isLE (h : Orders order P) (ha : P a) (hb : P b) (hc : P c) {o o' o'' : Ordering}
    (hrest : o.isLE = true → o'.isLE = true → o''.isLE = true)
    (hab : ((order a b).then o).isLE = true) (hbc : ((order b c).then o').isLE = true) :
    ((order a c).then o'').isLE = true := by
  rw [Ordering.isLE_then_iff_or] at hab hbc ⊢
  rcases hab with hab | ⟨hab, ho⟩
  · left
    refine h.lt_of_lt_of_isLE ha hb hc hab ?_
    rcases hbc with hbc | ⟨hbc, -⟩ <;> rw [hbc] <;> rfl
  · rcases hbc with hbc | ⟨hbc, ho'⟩
    · left
      exact h.lt_of_isLE_of_lt ha hb hc (by rw [hab]; rfl) hbc
    · exact .inr ⟨h.eq_trans ha hb hc hab hbc, hrest ho ho'⟩

theorem andThen {order' : β → β → Ordering} {Q : β → Prop} (h : Orders order P)
    (h' : Orders order' Q) :
    Orders (fun x y => (order x.1 y.1).then (order' x.2 y.2)) fun x : α × β => P x.1 ∧ Q x.2 where
  swap x y := by rw [Ordering.swap_then, h.swap, h'.swap]
  trans hx hy hz := h.then_isLE hx.1 hy.1 hz.1 (h'.trans hx.2 hy.2 hz.2)

theorem comap (h : Orders order P) (f : β → α) :
    Orders (fun x y => order (f x) (f y)) fun x => P (f x) where
  swap x y := h.swap (f x) (f y)
  trans := h.trans

/-- Comparing lists item by item, where a shorter list comes before a longer one that starts with
it, is transitive when the comparison of the items is. -/
theorem lex (h : Orders order P) {f : List α → List α → Ordering} (hnil : f [] [] = .eq)
    (hlt : ∀ b bs, f [] (b :: bs) = .lt) (hgt : ∀ a as, f (a :: as) [] = .gt)
    (hcons : ∀ a as b bs, f (a :: as) (b :: bs) = (order a b).then (f as bs)) :
    Orders f fun as => ∀ a ∈ as, P a where
  swap as := by
    induction as with
    | nil =>
        intro bs
        cases bs with
        | nil => rw [hnil]; rfl
        | cons b bs => rw [hlt, hgt]; rfl
    | cons a as ih =>
        intro bs
        cases bs with
        | nil => rw [hlt, hgt]; rfl
        | cons b bs => rw [hcons, hcons, Ordering.swap_then, h.swap, ih]
  trans {as bs cs} has hbs hcs hab hbc := by
    induction as generalizing bs cs with
    | nil =>
        cases cs with
        | nil => rw [hnil]; rfl
        | cons c cs => rw [hlt]; rfl
    | cons a as ih =>
        cases bs with
        | nil => rw [hgt] at hab; cases hab
        | cons b bs =>
            cases cs with
            | nil => rw [hgt] at hbc; cases hbc
            | cons c cs =>
                obtain ⟨ha, has⟩ := List.forall_mem_cons.1 has
                obtain ⟨hb, hbs⟩ := List.forall_mem_cons.1 hbs
                obtain ⟨hc, hcs⟩ := List.forall_mem_cons.1 hcs
                rw [hcons] at hab hbc ⊢
                exact h.then_isLE ha hb hc (ih has hbs hcs) hab hbc

end Orders

/-! ## Sets -/

namespace Container

variable {α : Type} {order : α → α → Ordering} {P : α → Prop} {last : Bool} {items as : List α}
  {a b : α}

/-- An item counts for a set: of the items that equal it, it is the last one or the first. -/
def Counts (order : α → α → Ordering) (last : Bool) (items : List α) (a : α) : Prop :=
  ∃ before after, items = before ++ a :: after ∧
    ∀ b ∈ if last then after else before, order b a ≠ .eq

/-- The list is the set of the items: it ascends, so that nothing is in it twice, all that is in it
is one of the items, and every item equals one that is in it. -/
structure IsSetOf (order : α → α → Ordering) (last : Bool) (items as : List α) : Prop where
  sorted : as.Pairwise fun a b => order a b = .lt
  counts : ∀ a ∈ as, Counts order last items a
  complete : ∀ a ∈ items, ∃ b ∈ as, order a b = .eq

theorem IsSetOf.mem (h : IsSetOf order last items as) (ha : a ∈ as) : a ∈ items := by
  obtain ⟨before, after, rfl, -⟩ := h.counts a ha
  exact List.mem_append_right _ List.mem_cons_self

/-- An item still counts when one more comes that does not equal it, and the first one does so in any
case. -/
theorem Counts.concat (h : Counts order last items b) (hne : last = true → order a b ≠ .eq) :
    Counts order last (items ++ [a]) b := by
  obtain ⟨before, after, rfl, hothers⟩ := h
  refine ⟨before, after ++ [a], by simp, fun c hc => ?_⟩
  cases last with
  | false => exact hothers c hc
  | true =>
      rcases List.mem_append.1 hc with hc | hc
      · exact hothers c hc
      · exact List.mem_singleton.1 hc ▸ hne rfl

/-- The item that comes last counts, unless it equals an earlier one and the first one counts. -/
theorem counts_concat (h : last = false → ∀ b ∈ items, order b a ≠ .eq) :
    Counts order last (items ++ [a]) a := by
  refine ⟨items, [], rfl, fun b hb => ?_⟩
  cases last with
  | false => exact h rfl b hb
  | true => cases hb

/-- Where an item of the set equals the one that is put in, one of the two is left. -/
theorem insertItem_of_eq (h : Orders order P) {before after : List α} (ha : P a)
    (hdone : ∀ c ∈ before ++ b :: after, P c)
    (hsorted : (before ++ b :: after).Pairwise fun b c => order b c = .lt) (hab : order a b = .eq) :
    insertItem order last a (before ++ b :: after)
      = before ++ (if last then a else b) :: after := by
  induction before with
  | nil => simp only [List.nil_append, insertItem, hab]
  | cons c before ih =>
      have hb : b ∈ before ++ b :: after := List.mem_append_right _ List.mem_cons_self
      obtain ⟨hc, hdone⟩ := List.forall_mem_cons.1 hdone
      obtain ⟨hfirst, hsorted⟩ := List.pairwise_cons.1 hsorted
      -- the first item is below the equal one, and so below the one to be put in
      have hca : order c a = .lt := by
        refine h.lt_of_lt_of_isLE hc (hdone b hb) ha (hfirst b hb) ?_
        rw [h.swap, hab]
        rfl
      have hac : order a c = .gt := by
        rw [h.swap, hca]
        rfl
      rw [List.cons_append, insertItem, hac]
      exact congrArg (c :: ·) (ih hdone hsorted)

/-- An item of an ascending list may be exchanged for one that equals it. -/
theorem pairwise_exchange (h : Orders order P) {before after : List α} (ha : P a)
    (hdone : ∀ c ∈ before ++ b :: after, P c)
    (hsorted : (before ++ b :: after).Pairwise fun b c => order b c = .lt) (hab : order a b = .eq) :
    (before ++ a :: after).Pairwise fun b c => order b c = .lt := by
  have hb : P b := hdone b (List.mem_append_right _ List.mem_cons_self)
  obtain ⟨hbefore, hrest, hacross⟩ := List.pairwise_append.1 hsorted
  obtain ⟨habove, hafter⟩ := List.pairwise_cons.1 hrest
  refine List.pairwise_append.2 ⟨hbefore, List.pairwise_cons.2 ⟨fun c hc => ?_, hafter⟩, ?_⟩
  · have hcP : P c := hdone c (List.mem_append_right _ (List.mem_cons_of_mem b hc))
    exact h.lt_of_isLE_of_lt ha hb hcP (by rw [hab]; rfl) (habove c hc)
  · intro c hc d hd
    rcases List.mem_cons.1 hd with rfl | hd
    · refine h.lt_of_lt_of_isLE (hdone c (List.mem_append_left _ hc)) hb ha
        (hacross c hc b List.mem_cons_self) ?_
      rw [h.swap, hab]
      rfl
    · exact hacross c hc d (List.mem_cons_of_mem b hd)

theorem IsSetOf.insert_of_eq (h : Orders order P) (ha : P a) (hitems : ∀ b ∈ items, P b)
    (hset : IsSetOf order last items as) (hb : b ∈ as) (hab : order a b = .eq) :
    IsSetOf order last (items ++ [a]) (insertItem order last a as) := by
  have has : ∀ c ∈ as, P c := fun c hc => hitems c (hset.mem hc)
  obtain ⟨before, after, rfl⟩ := List.append_of_mem hb
  rw [insertItem_of_eq h ha has hset.sorted hab]
  cases last with
  | false =>
      refine ⟨hset.sorted, fun c hc => (hset.counts c hc).concat nofun, fun c hc => ?_⟩
      rcases List.mem_append.1 hc with hc | hc
      · exact hset.complete c hc
      · exact ⟨b, hb, List.mem_singleton.1 hc ▸ hab⟩
  | true =>
      have hexchanged := pairwise_exchange h ha has hset.sorted hab
      have hself : order a a = .eq := order_self h.swap a
      refine ⟨hexchanged, fun c hc => ?_, fun c hc => ?_⟩
      · -- the others are above the new item or below it
        obtain ⟨-, hrest, hacross⟩ := List.pairwise_append.1 hexchanged
        rcases List.mem_append.1 hc with hc | hc
        · refine (hset.counts c (List.mem_append_left _ hc)).concat fun _ => ?_
          rw [h.swap, hacross c hc a List.mem_cons_self]
          exact nofun
        · rcases List.mem_cons.1 hc with rfl | hc
          · exact counts_concat nofun
          · refine (hset.counts c
              (List.mem_append_right _ (List.mem_cons_of_mem b hc))).concat fun _ => ?_
            rw [(List.pairwise_cons.1 hrest).1 c hc]
            exact nofun
      · have hnew : a ∈ before ++ a :: after := List.mem_append_right _ List.mem_cons_self
        rcases List.mem_append.1 hc with hc | hc
        · obtain ⟨d, hd, hcd⟩ := hset.complete c hc
          have hcP := hitems c hc
          rcases List.mem_append.1 hd with hd | hd
          · exact ⟨d, List.mem_append_left _ hd, hcd⟩
          · rcases List.mem_cons.1 hd with rfl | hd
            · refine ⟨a, hnew, h.eq_trans hcP (has d hb) ha hcd ?_⟩
              rw [h.swap, hab]
              rfl
            · exact ⟨d, List.mem_append_right _ (List.mem_cons_of_mem a hd), hcd⟩
        · exact ⟨a, hnew, List.mem_singleton.1 hc ▸ hself⟩

theorem IsSetOf.insert_of_ne (h : Orders order P) (ha : P a) (hitems : ∀ b ∈ items, P b)
    (hset : IsSetOf order last items as) (hne : ∀ b ∈ as, order a b ≠ .eq) :
    IsSetOf order last (items ++ [a]) (insertItem order last a as) := by
  have has : ∀ c ∈ as, P c := fun c hc => hitems c (hset.mem hc)
  have htrans : ∀ b ∈ as, ∀ c ∈ as, order a b = .lt → order b c = .lt → order a c = .lt := by
    intro b hb c hc hab hbc
    exact h.lt_of_lt_of_isLE ha (has b hb) (has c hc) hab (by rw [hbc]; rfl)
  obtain ⟨hsorted, hperm⟩ := insertItem_spec h.swap last htrans hne hset.sorted
  refine ⟨hsorted, fun c hc => ?_, fun c hc => ?_⟩
  · rcases mem_insertItem hc with rfl | hc
    · refine counts_concat fun _ b hb hbc => ?_
      obtain ⟨d, hd, hbd⟩ := hset.complete b hb
      have hcb : order c b = .eq := by
        rw [h.swap, hbc]
        rfl
      exact hne d hd (h.eq_trans ha (hitems b hb) (has d hd) hcb hbd)
    · exact (hset.counts c hc).concat fun _ => hne c hc
  · rcases List.mem_append.1 hc with hc | hc
    · obtain ⟨b, hb, hcb⟩ := hset.complete c hc
      exact ⟨b, hperm.symm.subset (List.mem_cons_of_mem a hb), hcb⟩
    · obtain rfl := List.mem_singleton.1 hc
      exact ⟨c, hperm.symm.subset List.mem_cons_self, order_self h.swap c⟩

theorem isSetOf_toSet (h : Orders order P) (last : Bool) (hitems : ∀ a ∈ items, P a) :
    IsSetOf order last items (toSet order last items) := by
  induction items using List.reverseRecOn with
  | nil => exact ⟨.nil, fun a ha => (nomatch ha), fun a ha => (nomatch ha)⟩
  | append_singleton items a ih =>
      have hfirst : ∀ b ∈ items, P b := fun b hb => hitems b (List.mem_append_left _ hb)
      have hlast : P a := hitems a (List.mem_append_right _ List.mem_cons_self)
      rw [toSet, List.foldl_append]
      by_cases hequal : ∃ b ∈ toSet order last items, order a b = .eq
      · obtain ⟨b, hb, hab⟩ := hequal
        exact (ih hfirst).insert_of_eq h hlast hfirst hb hab
      · exact (ih hfirst).insert_of_ne h hlast hfirst fun b hb hab => hequal ⟨b, hb, hab⟩

end Container

/-! ## Maps -/

namespace Keyed

variable {α : Type}

theorem ofList_append_singleton (es : List (String × α)) (e : String × α) :
    ofList (es ++ [e]) = insert e.1 e.2 (ofList es) :=
  List.foldl_concat ..

/-- The keys of a map ascend. -/
theorem pairwise_ofList (es : List (String × α)) :
    (ofList es).Pairwise fun d e => d.1 < e.1 := by
  induction es using List.reverseRecOn with
  | nil => exact .nil
  | append_singleton es e ih =>
      rw [ofList_append_singleton]
      exact pairwise_insert ih

/-- Of the entries with one key the last one counts. -/
theorem lookup_ofList_eq_some_iff {es : List (String × α)} {key : String} {a : α} :
    (ofList es).lookup key = some a ↔
      ∃ before after, es = before ++ (key, a) :: after ∧ ∀ e ∈ after, e.1 ≠ key := by
  induction es using List.reverseRecOn with
  | nil =>
      refine iff_of_false (by simp [ofList]) ?_
      rintro ⟨before, after, h, -⟩
      simp at h
  | append_singleton es e ih =>
      obtain ⟨k, b⟩ := e
      rw [ofList_append_singleton]
      by_cases hkey : key = k
      · subst hkey
        rw [lookup_insert_self]
        constructor
        · intro h
          obtain rfl := Option.some.inj h
          exact ⟨es, [], rfl, by simp⟩
        · rintro ⟨before, after, h, hafter⟩
          rcases List.eq_nil_or_concat after with rfl | ⟨after, e, rfl⟩
          · have hlast := (List.append_inj' h rfl).2
            simp at hlast
            rw [hlast]
          · -- the last entry has the key
            have hconcat : es ++ [(key, b)] = (before ++ (key, a) :: after) ++ [e] := by
              simpa using h
            obtain rfl : (key, b) = e := by simpa using (List.append_inj' hconcat rfl).2
            exact absurd rfl (hafter (key, b) (by simp))
      · rw [lookup_insert_of_ne hkey, ih]
        constructor
        · rintro ⟨before, after, rfl, hafter⟩
          refine ⟨before, after ++ [(k, b)], by simp, fun e he => ?_⟩
          rcases List.mem_append.1 he with he | he
          · exact hafter e he
          · obtain rfl := List.mem_singleton.1 he
            exact Ne.symm hkey
        · rintro ⟨before, after, h, hafter⟩
          rcases List.eq_nil_or_concat after with rfl | ⟨after, e, rfl⟩
          · have hlast := (List.append_inj' h rfl).2
            simp at hlast
            exact absurd hlast.1.symm hkey
          · have hconcat : es ++ [(k, b)] = (before ++ (key, a) :: after) ++ [e] := by
              simpa using h
            obtain ⟨rfl, -⟩ := List.append_inj' hconcat rfl
            exact ⟨before, after, rfl, fun e he => hafter e (by simp [he])⟩

end Keyed

/-! ## The order of values -/

namespace Files

theorem Component.orders_compare : Orders Component.compare fun _ => True where
  swap := Component.compare_swap
  trans {a b c} _ _ _ hab hbc := by
    -- names come last
    cases a with
    | name s =>
        cases b with
        | name t =>
            cases c with
            | name u => exact Std.TransOrd.isLE_trans hab hbc
            | _ => cases hbc
        | _ => cases hab
    | root => cases c <;> rfl
    | current =>
        cases b with
        | root => cases hab
        | current => exact hbc
        | parent =>
            cases c with
            | root => cases hbc
            | _ => rfl
        | name t =>
            cases c with
            | root => cases hbc
            | _ => rfl
    | parent =>
        cases b with
        | parent => exact hbc
        | name t =>
            cases c with
            | name u => rfl
            | _ => cases hbc
        | _ => cases hab

theorem Path.orders_compare : Orders Path.compare fun _ => True := by
  have hlist := Component.orders_compare.lex (f := Path.compareComponents) rfl (fun _ _ => rfl)
    (fun _ _ => rfl) fun _ _ _ _ => rfl
  have hpath := hlist.comap Path.components
  exact ⟨hpath.swap, fun _ _ _ => hpath.trans (by simp) (by simp) (by simp)⟩

end Files

namespace Value

theorem isLE_compareText {a b : String} : (compareText a b).isLE = true ↔ a ≤ b := by
  unfold compareText
  by_cases hab : a < b
  · rw [if_pos hab]
    exact iff_of_true rfl (String.lt_asymm hab)
  · rw [if_neg hab]
    by_cases hba : b < a
    · rw [if_pos hba]
      exact iff_of_false (by decide) (fun hle => hle hba)
    · rw [if_neg hba]
      exact iff_of_true rfl hba

theorem orders_compareText : Orders compareText fun _ => True where
  swap := compareText_swap
  trans _ _ _ hab hbc :=
    isLE_compareText.2 (String.le_trans (isLE_compareText.1 hab) (isLE_compareText.1 hbc))

theorem orders_compareItems {P : Value → Prop} (h : Orders compare P) :
    Orders compareItems fun vs => ∀ v ∈ vs, P v :=
  h.lex rfl (fun _ _ => rfl) (fun _ _ => rfl) fun _ _ _ _ => rfl

theorem orders_compareEntries {P : Value → Prop} (h : Orders compare P) :
    Orders compareEntries fun es => ∀ e ∈ es, True ∧ P e.2 :=
  (orders_compareText.andThen h).lex rfl (fun _ _ => rfl) (fun _ _ => rfl) fun _ _ _ _ => rfl

end Value

namespace Kind

open Container Reading

/-- Values of one kind are in order. Values of different kinds need not be. -/
theorem orders_compare (k : Kind) : Orders Value.compare k.Has := by
  refine ⟨Value.compare_swap, ?_⟩
  induction k with
  | whole w =>
      intro a b c ha hb hc hab hbc
      cases ha; cases hb; cases hc
      exact Std.TransOrd.isLE_trans hab hbc
  | bool =>
      intro a b c ha hb hc hab hbc
      cases ha; cases hb; cases hc
      exact Std.TransOrd.isLE_trans hab hbc
  | char =>
      intro a b c ha hb hc hab hbc
      cases ha; cases hb; cases hc
      exact Std.TransOrd.isLE_trans hab hbc
  | string =>
      intro a b c ha hb hc hab hbc
      cases ha; cases hb; cases hc
      exact Value.orders_compareText.trans trivial trivial trivial hab hbc
  | path =>
      intro a b c ha hb hc hab hbc
      cases ha; cases hb; cases hc
      exact Files.Path.orders_compare.trans trivial trivial trivial hab hbc
  | sequence form k ih =>
      intro a b c ha hb hc hab hbc
      cases ha with | sequence ha =>
      cases hb with | sequence hb =>
      cases hc with | sequence hc =>
      exact (Value.orders_compareItems ⟨Value.compare_swap, ih⟩).trans ha hb hc hab hbc
  | set arrangement k ih =>
      intro a b c ha hb hc hab hbc
      cases ha with | set ha _ =>
      cases hb with | set hb _ =>
      cases hc with | set hc _ =>
      exact (Value.orders_compareItems ⟨Value.compare_swap, ih⟩).trans ha hb hc hab hbc
  | map arrangement k ih =>
      intro a b c ha hb hc hab hbc
      cases ha with | map ha _ =>
      cases hb with | map hb _ =>
      cases hc with | map hc _ =>
      exact (Value.orders_compareEntries ⟨Value.compare_swap, ih⟩).trans
        (fun e he => ⟨trivial, ha e he⟩) (fun e he => ⟨trivial, hb e he⟩)
        (fun e he => ⟨trivial, hc e he⟩) hab hbc
  | option k ih =>
      intro a b c ha hb hc hab hbc
      cases ha with
      | none => cases hc <;> rfl
      | some ha =>
          cases hb with
          | none => cases hab
          | some hb =>
              cases hc with
              | none => cases hbc
              | some hc =>
                  have hac := ih ha hb hc hab hbc
                  exact hac
  | _ =>
      -- the other kinds are not plain, so they have no values here
      intro a b c ha
      cases ha

/-- What is read for a plain kind is a value of the kind. -/
theorem has_of_ofNode {k : Kind} (hk : k.isPlain = true) {n : Node} {v : Value}
    (h : k.ofNode n = .ok v) : k.Has v := by
  induction k generalizing n v with
  | whole w =>
      rw [ofNode] at h
      obtain ⟨i, rfl, hi⟩ := Width.ofNode_eq_ok_iff.1 h
      refine .whole (Width.holds_iff.2 ?_)
      cases hi with
      | integer hrange => exact hrange
      | string hspells => exact (Width.spells_iff.1 hspells).2
  | bool =>
      obtain ⟨b, -, rfl⟩ := map_eq_ok h
      exact .bool b
  | char =>
      obtain ⟨c, -, rfl⟩ := map_eq_ok h
      exact .char c
  | string =>
      obtain rfl := Except.ok.inj h
      exact .string _
  | path =>
      obtain ⟨p, -, rfl⟩ := map_eq_ok h
      exact .path p
  | sequence form k ih =>
      obtain ⟨vs, hvs, rfl⟩ := map_eq_ok h
      refine .sequence fun v hv => ?_
      obtain ⟨m, hm⟩ := exists_of_readSequence hvs v hv
      exact ih hk hm
  | set arrangement k ih =>
      obtain ⟨vs, hvs, rfl⟩ := map_eq_ok h
      obtain ⟨ws, hws, hset⟩ := bind_eq_ok hvs
      obtain rfl : toSet Value.compare arrangement.keepsLast ws = vs := Except.ok.inj hset
      have hitems : ∀ w ∈ ws, k.Has w := by
        intro w hw
        obtain ⟨m, hm⟩ := exists_of_readSequence hws w hw
        exact ih hk hm
      -- the items are in order because values of one kind are
      have hset := isSetOf_toSet k.orders_compare arrangement.keepsLast hitems
      exact .set (fun v hv => hitems v (hset.mem hv)) hset.sorted
  | map arrangement k ih =>
      obtain ⟨es, hes, rfl⟩ := map_eq_ok h
      refine .map (fun e he => ?_) ?_
      · obtain ⟨m, hm⟩ := exists_of_readMap hes e he
        exact ih hk hm
      · obtain ⟨ns, -, hes⟩ := bind_eq_ok hes
        obtain ⟨ds, -, hes⟩ := bind_eq_ok hes
        obtain rfl : Keyed.ofList ds = es := Except.ok.inj hes
        exact Keyed.pairwise_ofList ds
  | option k ih =>
      obtain ⟨o, ho, rfl⟩ := map_eq_ok h
      cases o with
      | none => exact .none
      | some w =>
          unfold readOption at ho
          split at ho
          · cases ho
          · obtain ⟨w', hw, heq⟩ := map_eq_ok ho
            obtain rfl := Option.some.inj heq
            exact .some (ih (isPlain_option.1 hk).1 hw)
  | _ => cases hk

end Kind

end ConfigLog
