import ConfigLog.Proofs.Number.Whole
import Mathlib.Data.List.Induction

set_option autoImplicit false

/-! # Decimal numerals

A numeral is one or more digits behind an optional sign, where a minus sign is for signed numbers
only. Reading a text as a whole number succeeds for numerals and for nothing else, with the number
that the digits stand for: `intOfText_eq_some_iff` and `natOfText_eq_some_iff`.

Of the many numerals for a number, with more zeros at their start or a plus sign, one is canonical,
and a whole number is written as that one (`canonical_iff`).
-/

namespace ConfigLog.Number

/-! ## Texts of digits -/

/-- The text consists of digits, at least one of them, that make the number. -/
def AreDigits (cs : List Char) (n : Nat) : Prop :=
  cs ≠ [] ∧ (∀ c ∈ cs, c.isDigit = true) ∧ n = Nat.ofDigitChars 10 cs 0

/-- In base ten there are no other digits than the decimal ones. -/
theorem isDigit_of_digitOf {c : Char} {d : Nat} (h : digitOf 10 c = some d) :
    c.isDigit = true := by
  rw [digitOf, Option.filter_eq_some_iff] at h
  obtain ⟨hvalue, hlt⟩ := h
  have hlt : d < 10 := by simpa using hlt
  split at hvalue
  · rename_i hdecimal
    simpa [Char.isDigit, Char.le_def] using hdecimal
  · split at hvalue
    · obtain rfl := Option.some.inj hvalue
      omega
    · split at hvalue
      · obtain rfl := Option.some.inj hvalue
        omega
      · cases hvalue

/-- What is read as a number in base ten consists of digits. -/
theorem isDigit_of_natOfDigits {cs : List Char} {n : Nat} (h : natOfDigits 10 cs = some n) :
    cs ≠ [] ∧ ∀ c ∈ cs, c.isDigit = true := by
  -- one character that is no digit makes the rest of the reading fail
  have hnone : ∀ ds : List Char,
      ds.foldl (fun acc c => do return (← acc) * 10 + (← digitOf 10 c)) (none : Option Nat) =
        none := by
    intro ds
    induction ds with
    | nil => rfl
    | cons d ds ih => exact ih
  have hdigits : ∀ (ds : List Char) (m : Nat),
      ds.foldl (fun acc c => do return (← acc) * 10 + (← digitOf 10 c)) (some m) = some n →
        ∀ c ∈ ds, c.isDigit = true := by
    intro ds
    induction ds with
    | nil => exact fun m _ c hc => absurd hc List.not_mem_nil
    | cons d ds ih =>
        intro m hfold c hc
        rw [List.foldl_cons] at hfold
        cases hd : digitOf 10 d with
        | none =>
            rw [hd] at hfold
            cases hfold.symm.trans (hnone ds)
        | some v =>
            rw [hd] at hfold
            rcases List.mem_cons.1 hc with rfl | hc
            · exact isDigit_of_digitOf hd
            · exact ih _ hfold c hc
  unfold natOfDigits at h
  split at h
  · cases h
  · rename_i hempty
    exact ⟨by simpa using hempty, hdigits cs 0 h⟩

theorem natOfDigits_eq_some_iff {cs : List Char} {n : Nat} :
    natOfDigits 10 cs = some n ↔ AreDigits cs n := by
  constructor
  · intro h
    obtain ⟨hne, hall⟩ := isDigit_of_natOfDigits h
    rw [natOfDigits_of_isDigit hne hall] at h
    exact ⟨hne, hall, (Option.some.inj h).symm⟩
  · rintro ⟨hne, hall, rfl⟩
    exact natOfDigits_of_isDigit hne hall

theorem areDigits_natText (n : Nat) : AreDigits (natText n) n :=
  natOfDigits_eq_some_iff.1 (natOfDigits_natText n)

namespace AreDigits

variable {cs : List Char} {c : Char} {n : Nat}

/-- Digits do not start with a sign. -/
theorem head_ne (h : AreDigits (c :: cs) n) : c ≠ '+' ∧ c ≠ '-' := by
  have hdigit := h.2.1 c List.mem_cons_self
  constructor
  · rintro rfl
    cases hdigit
  · rintro rfl
    cases hdigit

/-- Digits without a zero at their start are what the number is written as. -/
theorem eq_natText (h : AreDigits cs n) (hzero : cs.head? ≠ some '0') : cs = natText n := by
  obtain ⟨hne, hall, rfl⟩ := h
  -- the last digit is the remainder by ten, and the ones before it make the quotient
  induction cs using List.reverseRecOn with
  | nil => exact absurd rfl hne
  | append_singleton ds d ih =>
      have hbounds := bounds_of_isDigit (hall d (by simp))
      have hlt : d.toNat - 48 < 10 := by omega
      have hlast : [d] = natText (d.toNat - 48) := by
        have hchar : (d.toNat - 48).digitChar = d := by
          apply Char.toNat_inj.1
          rw [Nat.toNat_digitChar_of_lt_ten hlt]
          omega
        rw [natText, Nat.toDigits_of_lt_base hlt, hchar]
      have hvalue : Nat.ofDigitChars 10 (ds ++ [d]) 0 =
          10 * Nat.ofDigitChars 10 ds 0 + (d.toNat - 48) := by
        rw [Nat.ofDigitChars_append, Nat.ofDigitChars_cons, Nat.ofDigitChars_nil]
        rfl
      rw [hvalue]
      by_cases hds : ds = []
      · subst hds
        simpa using hlast
      · have hhead : ds.head? ≠ some '0' := by
          obtain ⟨c, r, rfl⟩ := List.exists_cons_of_ne_nil hds
          exact hzero
        have hrest := ih hhead hds fun c hc => hall c (List.mem_append_left _ hc)
        have hpos : 0 < Nat.ofDigitChars 10 ds 0 := by
          by_contra hnot
          rw [Nat.le_zero.1 (Nat.not_lt.1 hnot)] at hrest
          rw [hrest] at hhead
          exact hhead rfl
        rw [natText, ← Nat.toDigits_append_toDigits (by decide) hpos hlt]
        exact congrArg₂ (· ++ ·) hrest hlast

end AreDigits

/-! ## Signs -/

/-- The text is a numeral for the number: digits behind an optional sign, a minus sign only where
numbers are signed. -/
inductive Numeral (signed : Bool) : List Char → Int → Prop
  | bare {cs : List Char} {n : Nat} (h : AreDigits cs n) : Numeral signed cs n
  | plus {cs : List Char} {n : Nat} (h : AreDigits cs n) : Numeral signed ('+' :: cs) n
  | minus {cs : List Char} {n : Nat} (hsigned : signed = true) (h : AreDigits cs n) :
      Numeral signed ('-' :: cs) (-n)

theorem Numeral.mem {signed : Bool} {cs : List Char} {i : Int} (h : Numeral signed cs i) {c : Char}
    (hc : c ∈ cs) : c = '+' ∨ c = '-' ∨ c.isDigit = true := by
  cases h with
  | bare h => exact .inr (.inr (h.2.1 c hc))
  | plus h =>
      rcases List.mem_cons.1 hc with rfl | hc
      · exact .inl rfl
      · exact .inr (.inr (h.2.1 c hc))
  | minus _ h =>
      rcases List.mem_cons.1 hc with rfl | hc
      · exact .inr (.inl rfl)
      · exact .inr (.inr (h.2.1 c hc))

/-- A numeral where numbers have no sign is one where they have. -/
theorem Numeral.signed {signed : Bool} {cs : List Char} {i : Int} (h : Numeral signed cs i) :
    Numeral true cs i := by
  cases h with
  | bare h => exact .bare h
  | plus h => exact .plus h
  | minus _ h => exact .minus rfl h

theorem intOfText_eq (cs : List Char) :
    intOfText cs = Option.map (fun n : Nat => if (splitSign cs).1 then -(n : Int) else n)
      (natOfDigits 10 (splitSign cs).2) := by
  unfold intOfText
  cases splitSign cs with
  | mk negative ds =>
      show Option.map _ _ = Option.map _ (natOfDigits 10 ds)
      cases natOfDigits 10 ds <;> rfl

/-- A number below zero is the opposite of what its digits make. -/
theorem intOfText_of_splitSign {cs ds : List Char} {negative : Bool}
    (h : splitSign cs = (negative, ds)) {i : Int} :
    intOfText cs = some i ↔ ∃ n, AreDigits ds n ∧ (if negative then -(n : Int) else n) = i := by
  simp only [intOfText_eq, h, Option.map_eq_some_iff, natOfDigits_eq_some_iff]

theorem intOfText_eq_some_iff {cs : List Char} {i : Int} :
    intOfText cs = some i ↔ Numeral true cs i := by
  constructor
  · intro h
    cases hsplit : splitSign cs with
    | mk negative ds =>
        obtain ⟨n, hdigits, rfl⟩ := (intOfText_of_splitSign hsplit).1 h
        unfold splitSign at hsplit
        split at hsplit
        · cases hsplit
          exact .plus hdigits
        · cases hsplit
          exact .minus rfl hdigits
        · cases hsplit
          exact .bare hdigits
  · intro h
    cases h with
    | @bare _ n h =>
        obtain ⟨c, r, rfl⟩ := List.exists_cons_of_ne_nil h.1
        obtain ⟨hplus, hminus⟩ := h.head_ne
        have hsplit : splitSign (c :: r) = (false, c :: r) := by
          rw [splitSign]
          · exact fun r heq => hplus (List.cons.inj heq).1
          · exact fun r heq => hminus (List.cons.inj heq).1
        exact (intOfText_of_splitSign hsplit).2 ⟨n, h, rfl⟩
    | @plus ds n h => exact (intOfText_of_splitSign rfl).2 ⟨n, h, rfl⟩
    | @minus ds n _ h => exact (intOfText_of_splitSign rfl).2 ⟨n, h, rfl⟩

theorem natOfText_eq_some_iff {cs : List Char} {n : Nat} :
    natOfText cs = some n ↔ Numeral false cs n := by
  constructor
  · intro h
    have hdigits := natOfDigits_eq_some_iff.1 h
    split at hdigits
    · exact .plus hdigits
    · exact .bare hdigits
  · intro h
    generalize hi : (n : Int) = i at h
    cases h with
    | bare h =>
        obtain rfl := Int.ofNat.inj hi
        obtain ⟨c, r, rfl⟩ := List.exists_cons_of_ne_nil h.1
        rw [natOfText]
        · exact natOfDigits_eq_some_iff.2 h
        · exact fun r heq => h.head_ne.1 (List.cons.inj heq).1
    | plus h =>
        obtain rfl := Int.ofNat.inj hi
        exact natOfDigits_eq_some_iff.2 h
    | minus hsigned _ => cases hsigned

/-! ## The canonical numeral -/

/-- The text is the shortest numeral for the number: without a plus sign, without a zero at the
start of several digits, and without a minus sign before a zero. -/
inductive Canonical : List Char → Int → Prop
  | zero : Canonical ['0'] 0
  | bare {cs : List Char} {n : Nat} (h : AreDigits cs n) (hzero : cs.head? ≠ some '0') :
      Canonical cs n
  | minus {cs : List Char} {n : Nat} (h : AreDigits cs n) (hzero : cs.head? ≠ some '0') :
      Canonical ('-' :: cs) (-n)

/-- A number other than zero is not written with a zero at its start. -/
theorem head?_natText_ne {n : Nat} (hn : n ≠ 0) : (natText n).head? ≠ some '0' := by
  intro hhead
  obtain ⟨cs, hcs⟩ := List.head?_eq_some_iff.1 hhead
  obtain rfl := natText_eq_zero_cons hcs
  have hread := natOfDigits_natText n
  rw [hcs] at hread
  exact hn (Option.some.inj hread).symm

theorem canonical_intText (i : Int) : Canonical (intText i) i := by
  rcases intText_cases i with ⟨hneg, htext⟩ | ⟨hnonneg, htext⟩
  · have habs : -(i.natAbs : Int) = i := by omega
    have hcanonical := Canonical.minus (areDigits_natText i.natAbs) (head?_natText_ne (by omega))
    rwa [habs, ← htext] at hcanonical
  · by_cases hzero : i = 0
    · subst hzero
      exact .zero
    · have habs : (i.natAbs : Int) = i := by omega
      have hcanonical := Canonical.bare (areDigits_natText i.natAbs) (head?_natText_ne (by omega))
      rwa [habs, ← htext] at hcanonical

/-- There is one canonical numeral for each number, and the number is written as that one. -/
theorem canonical_iff {cs : List Char} {i : Int} : Canonical cs i ↔ cs = intText i := by
  constructor
  · intro h
    cases h with
    | zero => rfl
    | @bare _ n h hzero =>
        rw [intText, if_neg (by omega), Int.natAbs_natCast]
        exact h.eq_natText hzero
    | @minus ds n h hzero =>
        have hds := h.eq_natText hzero
        have hpos : n ≠ 0 := by
          rintro rfl
          rw [hds] at hzero
          exact hzero rfl
        rw [intText, if_pos (by omega), Int.natAbs_neg, Int.natAbs_natCast, hds]
  · rintro rfl
    exact canonical_intText i

end ConfigLog.Number
