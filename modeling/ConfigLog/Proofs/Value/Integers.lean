import ConfigLog.Proofs.Number.Numeral
import ConfigLog.Proofs.Value.Texts

set_option autoImplicit false

/-! # Limits of whole numbers

Which nodes and which texts are read as a number of a whole-number type, and as which one. A node
must be a whole number in the range of the type, a text a numeral for such a number with blanks
around it (`Width.Denotes`, `Width.Spells`), and everything else fails. A number of the type is
written as its canonical numeral, which is read back. This is `Kind.whole_exact`.
-/

namespace ConfigLog

open Number

/-! ## What the nodes and texts of a type are -/

theorem Number.Numeral.isBlank_eq {signed : Bool} {cs : List Char} {i : Int}
    (h : Numeral signed cs i) {c : Char} (hc : c ∈ cs) : Text.isBlank c = false := by
  rcases h.mem hc with rfl | rfl | hdigit
  · decide
  · decide
  · exact isBlank_of_isDigit hdigit

namespace Width

/-- The number lies within the limits of the type. -/
def InRange (w : Width) (i : Int) : Prop :=
  if w.signed then -2 ^ (w.bits - 1) ≤ i ∧ i < 2 ^ (w.bits - 1) else 0 ≤ i ∧ i < 2 ^ w.bits

instance (w : Width) (i : Int) : Decidable (w.InRange i) :=
  inferInstanceAs (Decidable (if w.signed then _ else _))

/-- The text is a numeral for the number of the type, with any blanks around it. -/
def Spells (w : Width) (text : String) (i : Int) : Prop :=
  ∃ before numeral after, text.toList = before ++ numeral ++ after ∧
    (∀ c ∈ before, Text.isBlank c = true) ∧ (∀ c ∈ after, Text.isBlank c = true) ∧
    Numeral w.signed numeral i ∧ w.InRange i

/-- The node stands for the number of the type. No number with a fraction or an exponent does,
whatever its value. -/
inductive Denotes (w : Width) : Node → Int → Prop
  | integer {i : Int} (h : w.InRange i) : Denotes w (.integer i) i
  | string {text : String} {i : Int} (h : w.Spells text i) : Denotes w (.string text) i

theorem holds_iff {w : Width} {i : Int} : w.holds i = true ↔ w.InRange i := by
  cases w <;> simp [holds, low, high, InRange, signed, bits] <;> omega

/-! ## Reading -/

/-- The numeral is read according to the type. -/
theorem numeral_iff {w : Width} {cs : List Char} {i : Int} :
    (if w.signed then intOfText cs else (natOfText cs).map Int.ofNat) = some i ↔
      Numeral w.signed cs i := by
  by_cases hsigned : w.signed = true
  · rw [if_pos hsigned, hsigned]
    exact intOfText_eq_some_iff
  · have hunsigned : w.signed = false := by simpa using hsigned
    rw [if_neg hsigned, hunsigned, Option.map_eq_some_iff]
    constructor
    · rintro ⟨n, hn, rfl⟩
      exact natOfText_eq_some_iff.1 hn
    · intro h
      -- without a minus sign the number is not below zero
      obtain ⟨n, rfl⟩ : ∃ n : Nat, (n : Int) = i := by
        cases h with
        | bare _ => exact ⟨_, rfl⟩
        | plus _ => exact ⟨_, rfl⟩
        | minus hminus _ => cases hminus
      exact ⟨n, natOfText_eq_some_iff.2 h, rfl⟩

/-- A text fails or is read as a number, depending on what is left of it without the blanks. -/
theorem ofText_cases (w : Width) (text : String) :
    (∃ i, Numeral w.signed (Text.trimChars text.toList) i ∧ w.InRange i ∧
      w.ofText text = .ok (.whole i)) ∨
    (∀ i, Numeral w.signed (Text.trimChars text.toList) i → ¬ w.InRange i) ∧
      w.ofText text = .error (.parse text w.name) := by
  have htrim : (Text.trim text).toList = Text.trimChars text.toList := String.toList_ofList
  cases hnumber : (if w.signed then intOfText (Text.trimChars text.toList)
      else (natOfText (Text.trimChars text.toList)).map Int.ofNat) with
  | none =>
      refine .inr ⟨fun i hi => ?_, ?_⟩
      · cases hnumber.symm.trans (numeral_iff.2 hi)
      · simp [ofText, htrim, hnumber]
  | some i =>
      by_cases hrange : w.InRange i
      · refine .inl ⟨i, numeral_iff.1 hnumber, hrange, ?_⟩
        simp [ofText, htrim, hnumber, Option.filter, holds_iff.2 hrange]
      · refine .inr ⟨fun j hj => ?_, ?_⟩
        · obtain rfl := Option.some.inj (hnumber.symm.trans (numeral_iff.2 hj))
          exact hrange
        · have hholds : w.holds i = false := by simpa using mt holds_iff.1 hrange
          simp [ofText, htrim, hnumber, Option.filter, hholds]

/-- Leaving the blanks out leaves the numeral. -/
theorem spells_iff {w : Width} {text : String} {i : Int} :
    w.Spells text i ↔ Numeral w.signed (Text.trimChars text.toList) i ∧ w.InRange i := by
  constructor
  · rintro ⟨before, numeral, after, heq, hbefore, hafter, hnumeral, hrange⟩
    rw [heq, Text.trimChars_append hbefore hafter fun c hc => hnumeral.isBlank_eq hc]
    exact ⟨hnumeral, hrange⟩
  · rintro ⟨hnumeral, hrange⟩
    obtain ⟨before, after, heq, hbefore, hafter⟩ := Text.exists_trimChars text.toList
    exact ⟨before, _, after, heq, hbefore, hafter, hnumeral, hrange⟩

theorem ofText_eq_ok_iff {w : Width} {text : String} {v : Value} :
    w.ofText text = .ok v ↔ ∃ i, v = .whole i ∧ w.Spells text i := by
  rcases ofText_cases w text with ⟨i, hi, hrange, hread⟩ | ⟨hnone, hread⟩
  · rw [hread]
    constructor
    · intro h
      exact ⟨i, (Except.ok.inj h).symm, spells_iff.2 ⟨hi, hrange⟩⟩
    · rintro ⟨j, rfl, hj⟩
      have hsame := (numeral_iff.2 hi).symm.trans (numeral_iff.2 (spells_iff.1 hj).1)
      rw [Option.some.inj hsame]
  · rw [hread]
    constructor
    · intro h
      cases h
    · rintro ⟨i, -, hi⟩
      obtain ⟨hnumeral, hrange⟩ := spells_iff.1 hi
      exact absurd hrange (hnone i hnumeral)

theorem ofText_eq_error {w : Width} {text : String} (h : ∀ i, ¬ w.Spells text i) :
    w.ofText text = .error (.parse text w.name) := by
  rcases ofText_cases w text with ⟨i, hi, hrange, -⟩ | ⟨-, hread⟩
  · exact absurd (spells_iff.2 ⟨hi, hrange⟩) (h i)
  · exact hread

/-- The text of a whole number is read as that number and no other. -/
theorem spells_intText_iff {w : Width} {i j : Int} :
    w.Spells (String.ofList (intText i)) j ↔ j = i ∧ w.InRange i := by
  constructor
  · intro h
    obtain ⟨hnumeral, hrange⟩ := spells_iff.1 h
    have htrim : Text.trimChars (intText i) = intText i :=
      Text.trimChars_eq_self fun c hc => isBlank_of_mem_intText hc
    rw [String.toList_ofList, htrim] at hnumeral
    have hread := intOfText_eq_some_iff.2 hnumeral.signed
    rw [intOfText_intText] at hread
    obtain rfl := Option.some.inj hread
    exact ⟨rfl, hrange⟩
  · rintro ⟨rfl, hrange⟩
    have hread := ofText_intText (holds_iff.2 hrange)
    obtain ⟨i, hvalue, h⟩ := ofText_eq_ok_iff.1 hread
    obtain rfl := Value.whole.inj hvalue
    exact h

theorem ofNode_eq_ok_iff {w : Width} {n : Node} {v : Value} :
    w.ofNode n = .ok v ↔ ∃ i, v = .whole i ∧ w.Denotes n i := by
  constructor
  · intro h
    unfold ofNode at h
    split at h
    · split at h
      · rename_i i hholds
        exact ⟨i, (Except.ok.inj h).symm, .integer (holds_iff.1 hholds)⟩
      · cases h
    · cases h
    · obtain ⟨i, hv, hi⟩ := ofText_eq_ok_iff.1 h
      exact ⟨i, hv, .string hi⟩
    · cases h
  · rintro ⟨i, rfl, hi⟩
    cases hi with
    | integer h => rw [ofNode, if_pos (holds_iff.2 h)]
    | string h => exact ofText_eq_ok_iff.2 ⟨i, rfl, h⟩

/-- What fails is told as a text that cannot be read, or as a node that is not a scalar for it. -/
theorem ofNode_eq_error {w : Width} {n : Node} (h : ∀ i, ¬ w.Denotes n i) :
    w.ofNode n = .error (if n.kind = "number" ∨ n.kind = "string" then .parse n.toText w.name
      else .wrongKind "integer" n) := by
  cases n with
  | integer i =>
      have hholds : ¬ w.holds i = true := fun hi => h i (.integer (holds_iff.1 hi))
      rw [ofNode, if_neg hholds]
      rfl
  | real x => rfl
  | string s => exact ofText_eq_error fun i hi => h i (.string hi)
  | _ => rfl

end Width

/-! ## Both directions -/

namespace Kind

/-- Whole numbers are read exactly, at the limits of every type: a number is read from the nodes and
the texts that stand for it and from no others, all the rest fails, and a number of the type is
written as its canonical numeral, from which it is read back. -/
theorem whole_exact (w : Width) :
    (∀ n v, (whole w).ofNode n = .ok v ↔ ∃ i, v = .whole i ∧ w.Denotes n i) ∧
    (∀ text v, (whole w).ofText text = .ok v ↔ ∃ i, v = .whole i ∧ w.Spells text i) ∧
    (∀ n, (∀ i, ¬ w.Denotes n i) → (whole w).ofNode n = .error
      (if n.kind = "number" ∨ n.kind = "string" then .parse n.toText w.name
        else .wrongKind "integer" n)) ∧
    (∀ text, (∀ i, ¬ w.Spells text i) → (whole w).ofText text = .error (.parse text w.name)) ∧
    ∀ i, w.InRange i →
      Canonical (Value.whole i).toText.toList i ∧
      (whole w).ofText (Value.whole i).toText = .ok (.whole i) := by
  refine ⟨fun n v => ?_, fun text v => ?_, fun n h => ?_, fun text h => ?_, fun i h => ?_⟩
  · rw [ofNode]
    exact Width.ofNode_eq_ok_iff
  · exact Width.ofText_eq_ok_iff
  · rw [ofNode]
    exact Width.ofNode_eq_error h
  · exact Width.ofText_eq_error h
  · refine ⟨?_, Width.ofText_intText (Width.holds_iff.2 h)⟩
    rw [Value.toText, String.toList_ofList]
    exact canonical_iff.2 rfl

/-- The greatest number of 64 bits without a sign is read as it is, one more than it fails, and so
does the least of 8 bits with a minus sign where there is none; zeros at the start, a plus sign and
wide blanks do no harm. -/
theorem whole_exact_ends :
    (whole .u64).ofNode (.integer 18446744073709551615) = .ok (.whole 18446744073709551615) ∧
    (whole .u64).ofNode (.integer 18446744073709551616) =
      .error (.parse "18446744073709551616" "u64") ∧
    (whole .u8).ofText "-0" = .error (.parse "-0" "u8") ∧
    (whole .i8).ofText "\u00a0+0127\n" = .ok (.whole 127) ∧
    Canonical (Value.whole (-128)).toText.toList (-128) ∧
    (whole .i8).ofText (Value.whole (-128)).toText = .ok (.whole (-128)) := by
  obtain ⟨hnode, -, hnodeError, -, -⟩ := whole_exact .u64
  obtain ⟨-, -, -, htextError, -⟩ := whole_exact .u8
  obtain ⟨-, htext, -, -, hback⟩ := whole_exact .i8
  have hover : ∀ i, ¬ Width.u64.Denotes (.integer 18446744073709551616) i := by
    rintro _ (⟨h⟩ | _)
    simp [Width.InRange, Width.signed, Width.bits] at h
  have hminus : ∀ i, ¬ Width.u8.Spells "-0" i := by
    intro i hi
    have hok := Width.ofText_eq_ok_iff.2 ⟨i, rfl, hi⟩
    have herror : Width.u8.ofText "-0" = .error (.parse "-0" "u8") := rfl
    cases hok.symm.trans herror
  have hspells : Width.i8.Spells "\u00a0+0127\n" 127 := by
    refine ⟨['\u00a0'], ['+', '0', '1', '2', '7'], ['\n'], by decide,
      List.all_eq_true.1 (by decide), List.all_eq_true.1 (by decide), ?_, ?_⟩
    · exact .plus (n := 127) ⟨by decide, List.all_eq_true.1 (by decide), by decide⟩
    · decide
  refine ⟨(hnode _ _).2 ⟨_, rfl, .integer ?_⟩, hnodeError _ hover, htextError _ hminus,
    (htext _ _).2 ⟨127, rfl, hspells⟩, hback (-128) ?_⟩
  · decide
  · decide

end Kind

end ConfigLog
