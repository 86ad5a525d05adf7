import ConfigLog.Config.Change
import ConfigLog.Proofs.Value.Integers

set_option autoImplicit false

/-! # Scalars from leaves and from their texts

A variable is set from a leaf of a document, or from a text, and the two ways are written apart. For
whole numbers, truth values, characters and texts they come to the same: a leaf is read as a value
just when its text is, and as the same one (`Kind.ofNode_leaf_iff`). A path is the exception, as it
is read from any text but from no leaf other than a text. What this means for a variable is
`State.set_leaf`.
-/

namespace ConfigLog

open Number

/-! ## The texts of leaves -/

namespace Number

theorem exists_digit_of_intText (i : Int) : ∃ c ∈ intText i, c.isDigit = true := by
  obtain ⟨c, r, hr⟩ := List.exists_cons_of_ne_nil (natText_ne_nil i.natAbs)
  have hdigit := isDigit_of_natText_eq hr
  have hmem : c ∈ natText i.natAbs := hr ▸ List.mem_cons_self
  rcases intText_cases i with ⟨-, htext⟩ | ⟨-, htext⟩
  · exact ⟨c, htext ▸ List.mem_cons_of_mem _ hmem, hdigit⟩
  · exact ⟨c, htext ▸ hmem, hdigit⟩

/-- The text shows that it is not that of a whole number, and it is no word of letters. -/
def Fractional (cs : List Char) : Prop :=
  '.' ∈ cs ∨ 'e' ∈ cs ∧ ∃ c ∈ cs, c.isDigit = true

theorem Fractional.append_left {ds : List Char} (cs : List Char) (h : Fractional ds) :
    Fractional (cs ++ ds) := by
  rcases h with hpoint | ⟨hexponent, c, hc, hdigit⟩
  · exact .inl (List.mem_append_right cs hpoint)
  · exact .inr ⟨List.mem_append_right cs hexponent, c, List.mem_append_right cs hc, hdigit⟩

theorem Digits.fractional_render (d : Digits) : Fractional (d.render .leaf) := by
  unfold Digits.render
  split
  · -- an exponent, which is written as a whole number
    obtain ⟨c, hc, hdigit⟩ := exists_digit_of_intText (d.point - 1)
    refine .inr ⟨?_, c, ?_, hdigit⟩
    · exact List.mem_append_right _ List.mem_cons_self
    · exact List.mem_append_right _ (List.mem_cons_of_mem _ hc)
  · split
    · exact .inl (List.mem_append_right _ List.mem_cons_self)
    · rename_i hlength
      left
      unfold Digits.positional
      dsimp only
      split
      · exact List.mem_append_left _ (List.mem_append_left _ (by decide))
      · exact List.mem_append_right _ List.mem_cons_self

/-- A number that is not whole by its type is never written like one that is. -/
theorem Binary.fractional_leaf (x : Binary) : Fractional x.leaf.toList := by
  cases x with
  | nan => exact .inl (by decide)
  | infinity s => cases s <;> exact .inl (by decide)
  | finite s m e =>
      rw [Binary.leaf, Binary.render]
      split
      · rw [String.toList_ofList]
        exact .append_left _ (.inl (by decide))
      · rw [String.toList_ofList]
        exact .append_left _ (Digits.fractional_render _)

end Number

namespace Width

variable {w : Width} {text : String}

/-- A text with a character that no numeral has is read as no number. -/
theorem not_spells_of_mem {c : Char} (hc : c ∈ text.toList) (hblank : Text.isBlank c = false)
    (hplus : c ≠ '+') (hminus : c ≠ '-') (hdigit : c.isDigit = false) (i : Int) :
    ¬ w.Spells text i := by
  intro h
  obtain ⟨hnumeral, -⟩ := spells_iff.1 h
  rcases hnumeral.mem (Text.mem_trimChars hc hblank) with rfl | rfl | hd
  · exact hplus rfl
  · exact hminus rfl
  · rw [hdigit] at hd
    cases hd

theorem not_spells_of_fractional (h : Fractional text.toList) (i : Int) : ¬ w.Spells text i := by
  rcases h with hpoint | ⟨hexponent, -⟩
  · exact not_spells_of_mem hpoint (by decide) (by decide) (by decide) (by decide) i
  · exact not_spells_of_mem hexponent (by decide) (by decide) (by decide) (by decide) i

end Width

/-- A text with a digit or a point is no truth value. -/
theorem boolOfText_eq_error {text : String} {c : Char} (hc : c ∈ text.toList)
    (h : c = '.' ∨ c.isDigit = true) :
    boolOfText text = .error (.parse (Text.trim text) "bool") := by
  have hblank : Text.isBlank c = false := by
    rcases h with rfl | hdigit
    · decide
    · exact isBlank_of_isDigit hdigit
  have hmem := Text.mem_trimChars hc hblank
  have hlower : c.toLower = c := by
    rcases h with rfl | hdigit
    · decide
    · have hrange := bounds_of_isDigit hdigit
      unfold Char.toLower
      simp [UInt32.le_iff_toNat_le]
      omega
  -- the character is still there when the text is compared, and no letter of a word is like it
  have hother : ∀ word : String,
      ((word.toList.map Char.toLower).all fun d => d != '.' && !d.isDigit) = true →
        Text.equalIgnoringCase (Text.trim text) word = false := by
    intro word hword
    by_contra hequal
    have hequal : Text.lower (Text.trim text) = Text.lower word := by
      simpa [Text.equalIgnoringCase] using hequal
    have hlist := congrArg String.toList hequal
    rw [Text.lower, Text.lower, String.toList_ofList, String.toList_ofList, Text.trim,
      String.toList_ofList] at hlist
    have hletter := List.all_eq_true.1 hword c (hlist ▸ hlower ▸ List.mem_map_of_mem hmem)
    obtain ⟨hpoint, hdigit⟩ : c ≠ '.' ∧ c.isDigit = false := by simpa using hletter
    rcases h with rfl | h
    · exact hpoint rfl
    · rw [h] at hdigit
      cases hdigit
  rw [boolOfText, hother "true" (by decide), hother "false" (by decide)]
  rfl

theorem boolOfText_of_fractional {text : String} (h : Fractional text.toList) :
    boolOfText text = .error (.parse (Text.trim text) "bool") := by
  rcases h with hpoint | ⟨-, c, hc, hdigit⟩
  · exact boolOfText_eq_error hpoint (.inl rfl)
  · exact boolOfText_eq_error hc (.inr hdigit)

/-! ## Kinds -/

namespace Kind

/-- The kinds with one text for each value, which is read exactly. -/
def isScalar : Kind → Bool
  | whole _ | bool | char | string | path => true
  | _ => false

/-- A path is read from no leaf but a text. -/
def Refuses (k : Kind) (n : Node) : Prop := k = path ∧ ∀ text, n ≠ .string text

/-- A leaf is read as a value just when its text is, unless the kind refuses the leaf. -/
theorem ofNode_leaf_iff {k : Kind} (hk : k.isScalar = true) {n : Node} (hn : n.isLeaf = true)
    (hrefuses : ¬ k.Refuses n) (v : Value) : k.ofNode n = .ok v ↔ k.ofText n.toText = .ok v := by
  -- where neither is read, both are errors
  have hneither : ∀ {e f}, k.ofNode n = .error e → k.ofText n.toText = .error f →
      (k.ofNode n = .ok v ↔ k.ofText n.toText = .ok v) := by
    intro e f he hf
    rw [he, hf]
    exact iff_of_false (by simp) (by simp)
  cases k with
  | whole w =>
      cases n with
      | bool b =>
          have hletter : 'e' ∈ (Node.bool b).toText.toList := by cases b <;> decide
          exact hneither rfl (Width.ofText_eq_error (Width.not_spells_of_mem hletter (by decide)
            (by decide) (by decide) (by decide)))
      | integer i =>
          rw [ofNode, Width.ofNode_eq_ok_iff]
          refine Iff.trans ?_ Width.ofText_eq_ok_iff.symm
          refine exists_congr fun j => and_congr_right fun _ => ?_
          refine Iff.trans ?_ Width.spells_intText_iff.symm
          constructor
          · rintro ⟨h⟩
            exact ⟨rfl, h⟩
          · rintro ⟨rfl, h⟩
            exact .integer h
      | real x =>
          have hleaf := Binary.fractional_leaf x
          exact hneither rfl (Width.ofText_eq_error (Width.not_spells_of_fractional hleaf))
      | string s => rw [ofNode]; exact Iff.rfl
      | _ => cases hn
  | bool =>
      cases n with
      | bool b => cases b <;> exact Iff.rfl
      | integer i =>
          obtain ⟨c, hc, hdigit⟩ := exists_digit_of_intText i
          have hmem : c ∈ (Node.integer i).toText.toList := by
            rwa [Node.toText, Node.scalarText?, String.toList_ofList]
          have herror := boolOfText_eq_error hmem (.inr hdigit)
          exact hneither rfl (congrArg (Value.bool <$> ·) herror)
      | real x =>
          have herror := boolOfText_of_fractional (Binary.fractional_leaf x)
          exact hneither rfl (congrArg (Value.bool <$> ·) herror)
      | string s => exact Iff.rfl
      | _ => cases hn
  | char =>
      cases n with
      | bool b => cases b <;> exact hneither rfl rfl
      | integer i => exact Iff.rfl
      | real x => exact Iff.rfl
      | string s => exact Iff.rfl
      | _ => cases hn
  | string => exact Iff.rfl
  | path =>
      cases n with
      | string s => exact Iff.rfl
      | _ => exact absurd ⟨rfl, by simp⟩ hrefuses
  | _ => cases hk

/-- A path is read from any text, the text of a leaf that it refuses included. -/
theorem path_of_refuses {k : Kind} {n : Node} (h : k.Refuses n) :
    k.ofNode n = .error (.wrongKind "path" n) ∧ k.ofText n.toText = .ok (.path n.toText) := by
  obtain ⟨rfl, hstring⟩ := h
  refine ⟨?_, rfl⟩
  cases n with
  | string s => exact absurd rfl (hstring s)
  | _ => rfl

end Kind

/-! ## Variables -/

namespace Config.State

/-- Two ways of setting a variable come to the same: both do so with the same outcome, or both fail
and leave all variables as they are. -/
def Alike (s : State) (a b : State × Except ConvertError Bool) : Prop :=
  (∃ changed, a.2 = .ok changed ∧ a = b) ∨
    (∃ e, a.2 = .error e) ∧ (∃ e, b.2 = .error e) ∧ a.1.vars = s.vars ∧ b.1.vars = s.vars

theorem assignRead_alike {assign : Assign} {s : State} {v : VariableId} {x : Variable}
    {a b : Except ConvertError Value} (h : ∀ value, a = .ok value ↔ b = .ok value)
    (attempt other : String) :
    s.Alike (s.assignRead assign v x attempt a) (s.assignRead assign v x other b) := by
  cases a with
  | ok value =>
      obtain rfl := (h value).1 rfl
      exact .inl ⟨_, rfl, rfl⟩
  | error e =>
      cases b with
      | ok value => cases (h value).2 rfl
      | error f => exact .inr ⟨⟨e, rfl⟩, ⟨f, rfl⟩, rfl, rfl⟩

/-- A scalar is read from a leaf as a value just when it is read from the text of the leaf as that
value, and setting a variable from the one comes to the same as setting it from the other. Only a
path is not read from a leaf that is no text: the variable stays as it is, although it would be set
from the text. -/
theorem set_leaf {k : Kind} (hk : k.isScalar = true) {n : Node} (hn : n.isLeaf = true) :
    (¬ k.Refuses n → (∀ value, k.ofNode n = .ok value ↔ k.ofText n.toText = .ok value) ∧
      ∀ (assign : Assign) (s : State) (v : VariableId) (x : Variable),
        s.vars[v]? = some x → x.kind = k →
        s.Alike (s.assignNode assign v n) (s.assignText assign v n.toText)) ∧
    (k.Refuses n →
      (k.ofNode n = .error (.wrongKind "path" n) ∧ k.ofText n.toText = .ok (.path n.toText)) ∧
      ∀ (assign : Assign) (s : State) (v : VariableId) (x : Variable),
        s.vars[v]? = some x → x.kind = k →
        (s.assignNode assign v n).2 = .error (.wrongKind "path" n) ∧
        (s.assignNode assign v n).1.vars = s.vars ∧
        s.assignText assign v n.toText =
          ((assign s v (.path n.toText)).1, .ok (assign s v (.path n.toText)).2)) := by
  constructor
  · intro hrefuses
    have hread := Kind.ofNode_leaf_iff hk hn hrefuses
    refine ⟨hread, fun assign s v x hx hkind => ?_⟩
    subst hkind
    simp only [assignNode, assignText, hx]
    exact assignRead_alike hread _ _
  · intro hrefuses
    have hpath := Kind.path_of_refuses hrefuses
    refine ⟨hpath, fun assign s v x hx hkind => ?_⟩
    subst hkind
    simp only [assignNode, assignText, hx, hpath.1, hpath.2]
    exact ⟨rfl, rfl, rfl⟩

/-- A short number is read from a text with a sign, zeros and blanks, and not from the text of a
number with a fraction. A path is not set from a number, though from its text. -/
theorem set_leaf_path :
    (Kind.whole .u8).ofNode (.string " +007\n") = .ok (.whole 7) ∧
    (∀ value, (Kind.whole .u8).ofText (Node.real (.finite false 1 0)).toText ≠ .ok value) ∧
    let x := Variable.new "dir" .path (.path ".") ""
    let s : State := { logging := { files := .start [] }, vars := #[x] }
    (s.setNode 0 (.integer 80)).2 = .error (.wrongKind "path" (.integer 80)) ∧
    (s.setNode 0 (.integer 80)).1.vars = #[x] ∧
    s.setText 0 "80" = ((assign s 0 (.path "80")).1, .ok (assign s 0 (.path "80")).2) := by
  obtain ⟨hstring, -⟩ := set_leaf (k := .whole .u8) rfl (n := .string " +007\n") rfl
  obtain ⟨hreal, -⟩ := set_leaf (k := .whole .u8) rfl (n := .real (.finite false 1 0)) rfl
  obtain ⟨-, hpath⟩ := set_leaf (k := .path) rfl (n := .integer 80) rfl
  refine ⟨?_, ?_, ?_⟩
  · exact ((hstring (by simp [Kind.Refuses])).1 _).2 rfl
  · intro value h
    cases ((hreal (by simp [Kind.Refuses])).1 value).2 h
  · intro x s
    exact (hpath ⟨rfl, by simp⟩).2 assign s 0 x rfl rfl

/-- A leaf and its text are not always read alike: a number is the text of a path, but no path. -/
theorem not_forall_ofNode_leaf_iff :
    ¬ ∀ (k : Kind) (n : Node) (value : Value), k.isScalar = true → n.isLeaf = true →
      (k.ofNode n = .ok value ↔ k.ofText n.toText = .ok value) := by
  intro hall
  have hiff := hall .path (.integer 80) (.path "80") rfl rfl
  have htext : Kind.path.ofText (Node.integer 80).toText = .ok (.path "80") := rfl
  cases hiff.2 htext

end Config.State

end ConfigLog
