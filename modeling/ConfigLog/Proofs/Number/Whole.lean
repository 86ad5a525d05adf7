import ConfigLog.Number.Decimal
import Mathlib.Data.Nat.Digits.Defs

set_option autoImplicit false

/-! # Whole numbers from their decimal texts

A whole number is read back from its decimal text, with a sign (`intOfText_intText`) and, where it
has none, without one (`natOfText_intText`). The text consists of digits behind the sign, and only
that of zero starts with a zero.
-/

namespace ConfigLog.Number

/-! ## Digits -/

theorem bounds_of_isDigit {c : Char} (h : c.isDigit = true) : 48 ≤ c.toNat ∧ c.toNat ≤ 57 := by
  simpa [Char.isDigit, UInt32.le_iff_toNat_le] using h

theorem digitOf_of_isDigit {c : Char} (h : c.isDigit = true) :
    digitOf 10 c = some (c.toNat - '0'.toNat) := by
  have hbounds : '0' ≤ c ∧ c ≤ '9' := by
    simpa [Char.isDigit, Char.le_def] using h
  have hvalue : c.toNat - 48 < 10 := by
    have hlast : c.toNat ≤ 57 := hbounds.2
    omega
  simp [digitOf, hbounds, Option.filter, hvalue]

/-- A text of digits is read as the number that the digits make. -/
theorem natOfDigits_of_isDigit {cs : List Char} (hne : cs ≠ [])
    (h : ∀ c ∈ cs, c.isDigit = true) :
    natOfDigits 10 cs = some (Nat.ofDigitChars 10 cs 0) := by
  have hfold : ∀ (cs : List Char) (n : Nat), (∀ c ∈ cs, c.isDigit = true) →
      cs.foldl (fun acc c => do return (← acc) * 10 + (← digitOf 10 c)) (some n) =
        some (Nat.ofDigitChars 10 cs n) := by
    intro cs
    induction cs with
    | nil => exact fun n _ => rfl
    | cons c cs ih =>
        intro n h
        have hc := digitOf_of_isDigit (h c List.mem_cons_self)
        have hrest := ih (10 * n + (c.toNat - '0'.toNat)) fun d hd =>
          h d (List.mem_cons_of_mem c hd)
        rw [List.foldl_cons, Nat.ofDigitChars_cons, ← hrest, hc, Nat.mul_comm 10 n]
        rfl
  have hempty : cs.isEmpty = false := by simpa using hne
  rw [natOfDigits, hempty]
  exact hfold cs 0 h

/-! ## Numbers without a sign -/

theorem natText_ne_nil (n : Nat) : natText n ≠ [] := Nat.toDigits_ne_nil

theorem isDigit_of_mem_natText {n : Nat} {c : Char} (h : c ∈ natText n) : c.isDigit = true :=
  Nat.isDigit_of_mem_toDigits (by decide) (by decide) h

theorem isDigit_of_natText_eq {n : Nat} {c : Char} {r : List Char} (h : natText n = c :: r) :
    c.isDigit = true :=
  isDigit_of_mem_natText (by rw [h]; exact List.mem_cons_self)

theorem natOfDigits_natText (n : Nat) : natOfDigits 10 (natText n) = some n := by
  rw [natOfDigits_of_isDigit (natText_ne_nil n) fun c hc => isDigit_of_mem_natText hc]
  exact congrArg some Nat.ofDigitChars_ten_toDigits

/-- Only zero is written with a zero at its start. -/
theorem natText_eq_zero_cons {n : Nat} {cs : List Char} (h : natText n = '0' :: cs) : cs = [] := by
  induction n using Nat.strongRecOn generalizing cs with
  | ind n ih =>
      by_cases hn : n < 10
      · have htext : natText n = [n.digitChar] := Nat.toDigits_of_lt_base hn
        rw [htext] at h
        exact (List.cons.inj h).2.symm
      · have htext : natText n = natText (n / 10) ++ [(n % 10).digitChar] :=
          Nat.toDigits_of_base_le (by decide) (Nat.le_of_not_lt hn)
        obtain ⟨c, r, hr⟩ := List.exists_cons_of_ne_nil (natText_ne_nil (n / 10))
        rw [htext, hr] at h
        obtain rfl : c = '0' := (List.cons.inj h).1
        obtain rfl : r = [] := ih (n / 10) (by omega) hr
        -- then the number without its last digit is zero
        have hzero : natOfDigits 10 ['0'] = some (n / 10) := by
          rw [← hr]
          exact natOfDigits_natText (n / 10)
        have : some 0 = some (n / 10) := hzero
        have : 0 = n / 10 := Option.some.inj this
        omega

/-! ## Numbers with a sign -/

/-- A whole number is written as its digits, behind a minus sign when it is below zero. -/
theorem intText_cases (i : Int) :
    (i < 0 ∧ intText i = '-' :: natText i.natAbs) ∨ (0 ≤ i ∧ intText i = natText i.natAbs) := by
  by_cases h : i < 0
  · exact .inl ⟨h, if_pos h⟩
  · exact .inr ⟨Int.not_lt.1 h, if_neg h⟩

/-- The characters of a whole number are digits and a minus sign. -/
theorem mem_intText {i : Int} {c : Char} (h : c ∈ intText i) : c = '-' ∨ c.isDigit = true := by
  rcases intText_cases i with ⟨-, htext⟩ | ⟨-, htext⟩
  · rw [htext] at h
    rcases List.mem_cons.1 h with hc | hc
    · exact .inl hc
    · exact .inr (isDigit_of_mem_natText hc)
  · rw [htext] at h
    exact .inr (isDigit_of_mem_natText h)

/-- Digits do not start with a sign. -/
theorem splitSign_natText (n : Nat) : splitSign (natText n) = (false, natText n) := by
  unfold splitSign
  split
  · rename_i r h
    cases isDigit_of_natText_eq h
  · rename_i r h
    cases isDigit_of_natText_eq h
  · rfl

theorem intOfText_intText (i : Int) : intOfText (intText i) = some i := by
  rcases intText_cases i with ⟨hneg, htext⟩ | ⟨hnonneg, htext⟩
  · have habs : -(i.natAbs : Int) = i := by omega
    rw [htext]
    show (natOfDigits 10 (natText i.natAbs)).map (fun n => -(n : Int)) = some i
    rw [natOfDigits_natText]
    exact congrArg some habs
  · have habs : (i.natAbs : Int) = i := by omega
    rw [htext, intOfText, splitSign_natText]
    show (natOfDigits 10 (natText i.natAbs)).map (fun n => (n : Int)) = some i
    rw [natOfDigits_natText]
    exact congrArg some habs

theorem natOfText_natText (n : Nat) : natOfText (natText n) = some n := by
  unfold natOfText
  split
  · rename_i r h
    cases isDigit_of_natText_eq h
  · exact natOfDigits_natText n

end ConfigLog.Number
