import ConfigLog.Proofs.Value.Trees
import ConfigLog.Proofs.Yaml.Visible
import ConfigLog.Proofs.Yaml.Word
import Mathlib.Data.List.TakeWhile

set_option autoImplicit false

/-! # Values from their texts

The text of a value of a plain kind is the text of its tree, and it is read back as that value with
one exception (`Kind.ofText_of_isPlain`). A text, a character or a path that is optional is written
bare, but it is read as YAML. So it comes back only when YAML does not take it for something else,
as it does with the word `null`, a blank text, or a number that is not written the shortest way.

Of sequences and mappings it is assumed that their YAML text is read back as the same tree
(`Legible`).
-/

namespace ConfigLog

open Number

/-! ## Blanks around a text -/

namespace Text

/-- Trimming takes nothing but blanks away, and only from the two ends. -/
theorem exists_trimChars (cs : List Char) :
    ∃ before after, cs = before ++ trimChars cs ++ after ∧
      (∀ c ∈ before, isBlank c = true) ∧ ∀ c ∈ after, isBlank c = true := by
  let rest := (cs.dropWhile isBlank).reverse
  refine ⟨cs.takeWhile isBlank, (rest.takeWhile isBlank).reverse, ?_, ?_, ?_⟩
  · have hrest : trimChars cs ++ (rest.takeWhile isBlank).reverse = cs.dropWhile isBlank := by
      rw [trimChars, ← List.reverse_append, List.takeWhile_append_dropWhile, List.reverse_reverse]
    rw [List.append_assoc, hrest, List.takeWhile_append_dropWhile]
  · exact fun c hc => List.mem_takeWhile_imp hc
  · exact fun c hc => List.mem_takeWhile_imp (List.mem_reverse.1 hc)

/-- A text without blanks is what trimming leaves of it with blanks around. -/
theorem trimChars_append {before cs after : List Char} (hbefore : ∀ c ∈ before, isBlank c = true)
    (hafter : ∀ c ∈ after, isBlank c = true) (hcs : ∀ c ∈ cs, isBlank c = false) :
    trimChars (before ++ cs ++ after) = cs := by
  have hreverse : ∀ c ∈ after.reverse, isBlank c = true :=
    fun c hc => hafter c (List.mem_reverse.1 hc)
  rw [trimChars, List.append_assoc, List.dropWhile_append_of_pos hbefore]
  cases cs with
  | nil =>
      have hnil : after.dropWhile isBlank = [] := List.dropWhile_eq_nil_iff.2 hafter
      rw [List.nil_append, hnil]
      rfl
  | cons c cs =>
      have hne : (c :: cs).reverse ≠ [] := by simp
      obtain ⟨d, r, hr⟩ := List.exists_cons_of_ne_nil hne
      have hc : isBlank c = false := hcs c List.mem_cons_self
      have hd : isBlank d = false := hcs d (List.mem_reverse.1 (hr ▸ List.mem_cons_self))
      rw [List.cons_append, List.dropWhile_cons_of_neg (by simp [hc]), ← List.cons_append,
        List.reverse_append, List.dropWhile_append_of_pos hreverse, hr,
        List.dropWhile_cons_of_neg (by simp [hd]), ← hr, List.reverse_reverse]

/-- What is not blank is not trimmed away. -/
theorem mem_trimChars {cs : List Char} {c : Char} (hc : c ∈ cs) (hblank : isBlank c = false) :
    c ∈ trimChars cs := by
  obtain ⟨before, after, heq, hbefore, hafter⟩ := exists_trimChars cs
  rw [heq] at hc
  rcases List.mem_append.1 hc with hc | hc
  · rcases List.mem_append.1 hc with hc | hc
    · rw [hbefore c hc] at hblank
      cases hblank
    · exact hc
  · rw [hafter c hc] at hblank
    cases hblank

theorem trimChars_eq_self {cs : List Char} (h : ∀ c ∈ cs, isBlank c = false) :
    trimChars cs = cs := by
  have htrim := trimChars_append (List.forall_mem_nil _) (List.forall_mem_nil _) h
  rwa [List.nil_append, List.append_nil] at htrim

theorem trim_eq_self {cs : List Char} (h : ∀ c ∈ cs, isBlank c = false) :
    trim (String.ofList cs) = String.ofList cs := by
  rw [trim, String.toList_ofList, trimChars_eq_self h]

end Text

/-! ## Trees from their texts -/

/-- A sequence or a mapping has a YAML text, and that text is read back as the same tree. -/
def Legible (n : Node) : Prop :=
  Yaml.isCollection n = true → ∃ text, Yaml.print n = some text ∧ Yaml.read text = some n

namespace Node

theorem ofText?_of_legible {n : Node} (hn : Yaml.isCollection n = true) (h : Legible n) :
    ofText? n.toText = some n := by
  obtain ⟨text, hprint, hread⟩ := h hn
  have hscalar : n.scalarText? = none := by
    cases n with
    | sequence items => rfl
    | mapping entries => rfl
    | _ => cases hn
  have htext : n.toText = text := by
    rw [toText, hscalar, hprint]
    rfl
  rw [htext, ofText?, Yaml.not_blank_of_print hn hprint]
  exact hread

theorem ofText?_bool (b : Bool) : ofText? (bool b).toText = some (.bool b) := by
  have hblank : Text.isBlankText (if b then "true" else "false") = false := by
    cases b <;> decide
  show ofText? (if b then "true" else "false") = some (.bool b)
  rw [ofText?, hblank]
  exact Yaml.read_bool b

end Node

theorem isBlank_of_isDigit {c : Char} (h : c.isDigit = true) : Text.isBlank c = false := by
  have hrange := bounds_of_isDigit h
  simp [Text.isBlank]
  omega

theorem isBlank_of_mem_intText {i : Int} {c : Char} (h : c ∈ intText i) :
    Text.isBlank c = false := by
  rcases mem_intText h with rfl | hdigit
  · decide
  · exact isBlank_of_isDigit hdigit

theorem Node.ofText?_integer {i : Int} (hlow : -2 ^ 63 ≤ i) (hhigh : i < 2 ^ 64) :
    ofText? (integer i).toText = some (.integer i) := by
  have hblank : Text.isBlankText (String.ofList (intText i)) = false := by
    obtain ⟨c, r, hr⟩ := List.exists_cons_of_ne_nil (Yaml.isWordText_intText i).ne_nil
    have hmem : c ∈ intText i := by
      rw [hr]
      exact List.mem_cons_self
    simp [Text.isBlankText, hr, isBlank_of_mem_intText hmem]
  show ofText? (String.ofList (intText i)) = some (.integer i)
  rw [ofText?, hblank]
  exact Yaml.read_intText hlow hhigh

/-! ## Whole numbers -/

namespace Width

/-- Every whole number of a type fits into a tree. -/
theorem bounds_of_holds {w : Width} {i : Int} (h : w.holds i = true) :
    -2 ^ 63 ≤ i ∧ i < 2 ^ 64 := by
  cases w <;> simp [holds, low, high, signed, bits] at h <;> omega

theorem ofText_intText {w : Width} {i : Int} (h : w.holds i = true) :
    w.ofText (String.ofList (intText i)) = .ok (.whole i) := by
  have htrim : Text.trim (String.ofList (intText i)) = String.ofList (intText i) :=
    Text.trim_eq_self fun c hc => isBlank_of_mem_intText hc
  have hnumber : (if w.signed then intOfText (intText i)
      else (natOfText (intText i)).map Int.ofNat) = some i := by
    by_cases hsigned : w.signed = true
    · rw [if_pos hsigned, intOfText_intText]
    · have hnonneg : 0 ≤ i := by
        simp [holds, low, hsigned] at h
        exact h.1
      have htext : intText i = natText i.natAbs := if_neg (Int.not_lt.2 hnonneg)
      have habs : (i.natAbs : Int) = i := by omega
      rw [if_neg hsigned, htext, natOfText_natText]
      exact congrArg some habs
  rw [ofText, htrim, String.toList_ofList, hnumber]
  simp [Option.filter, h]

end Width

/-! ## Plain kinds -/

namespace Kind

/-- The values of the kind are written as they are, so that their texts may look like anything. -/
def isTextual : Kind → Bool
  | char | string | path => true
  | _ => false

/-- The text of a value of a plain kind is that of its tree. -/
theorem toText_eq {k : Kind} {v : Value} (hv : k.Has v) : v.toText = v.toNode.toText := by
  cases hv <;> rfl

/-- The tree of a value that is neither optional nor a text is read back from its text. -/
theorem ofText?_of_writes {k : Kind} (hopt : ∀ t, k ≠ option t) (htextual : k.isTextual = false)
    {v : Value} (hv : k.Has v) {n : Node} (hn : k.Writes v n) (hread : Legible n) :
    Node.ofText? n.toText = some n := by
  cases hv with
  | whole h =>
      obtain rfl := hn
      obtain ⟨hlow, hhigh⟩ := Width.bounds_of_holds h
      exact Node.ofText?_integer hlow hhigh
  | bool b =>
      obtain rfl := hn
      exact Node.ofText?_bool b
  | char c => cases htextual
  | string s => cases htextual
  | path p => cases htextual
  | sequence _ =>
      obtain ⟨ns, -, rfl⟩ := hn
      exact Node.ofText?_of_legible rfl hread
  | set _ _ =>
      obtain ⟨ws, ns, -, -, rfl⟩ := hn
      exact Node.ofText?_of_legible rfl hread
  | map _ _ =>
      obtain ⟨ds, ns, -, -, rfl⟩ := hn
      exact Node.ofText?_of_legible rfl hread
  | none => exact absurd rfl (hopt _)
  | some _ => exact absurd rfl (hopt _)

/-- The values of the kind have no text but that of their tree. -/
def isComposite : Kind → Bool
  | sequence .. | set .. | map .. | option _ => true
  | _ => false

theorem ofText_eq_ofNode {k : Kind} (hk : k.isComposite = true) {text : String} {n : Node}
    (h : Node.ofText? text = some n) : k.ofText text = k.ofNode n := by
  cases k with
  | sequence form k => simp [ofText, h]
  | set a k => simp [ofText, h]
  | map a k => simp [ofText, h]
  | option k => simp [ofText, h]
  | _ => cases hk

/-- What is not optional comes back from its text. -/
theorem ofText_of_writes {k : Kind} (hk : k.isPlain = true) (hopt : ∀ t, k ≠ option t)
    {v : Value} (hv : k.Has v) {n : Node} (hn : k.Writes v n) (hread : Legible n) :
    k.ofText n.toText = .ok v := by
  have htree : k.isComposite = true → k.isTextual = false → k.ofText n.toText = .ok v := by
    intro hcomposite htextual
    rw [ofText_eq_ofNode hcomposite (ofText?_of_writes hopt htextual hv hn hread)]
    exact ofNode_of_writes hk hv hn
  cases hv with
  | whole h =>
      obtain rfl := hn
      exact Width.ofText_intText h
  | bool b =>
      obtain rfl := hn
      cases b <;> rfl
  | char c =>
      obtain rfl := hn
      show Value.char <$> charOfText c.toString = .ok (.char c)
      rw [charOfText_toString]
      rfl
  | string s =>
      obtain rfl := hn
      rfl
  | path p =>
      obtain rfl := hn
      rfl
  | sequence _ => exact htree rfl rfl
  | set _ _ => exact htree rfl rfl
  | map _ _ => exact htree rfl rfl
  | none => exact absurd rfl (hopt _)
  | some _ => exact absurd rfl (hopt _)

/-- A value is read for an optional kind when the text has a tree that is not null and that is read
as the value. -/
theorem ofText_option_eq_some {t : Kind} {text : String} {w : Value} :
    (option t).ofText text = .ok (.some w) ↔
      ∃ m, Node.ofText? text = some m ∧ m ≠ .null ∧ t.ofNode m = .ok w := by
  constructor
  · intro h
    cases htree : Node.ofText? text with
    | none => simp [ofText, htree] at h
    | some m =>
        rw [ofText_eq_ofNode rfl htree] at h
        obtain ⟨o, ho, hvalue⟩ := Reading.map_eq_ok h
        cases o with
        | none => cases hvalue
        | some w' =>
            obtain rfl := Value.some.inj hvalue
            unfold Container.readOption at ho
            split at ho
            · cases ho
            · rename_i hnull
              obtain ⟨w, hw, heq⟩ := Reading.map_eq_ok ho
              obtain rfl := Option.some.inj heq
              exact ⟨m, rfl, hnull, hw⟩
  · rintro ⟨m, htree, hnull, hw⟩
    rw [ofText_eq_ofNode rfl htree, ofNode, Container.readOption, hw]
    · rfl
    · exact hnull

/-- Every value of a plain kind is read back from its text, but for a text, a character or a path
that is optional: such a value is read back just when YAML reads its text as a tree of the value. -/
theorem ofText_of_isPlain {k : Kind} (hk : k.isPlain = true) {v : Value} (hv : k.Has v) {n : Node}
    (hn : k.Writes v n) (hread : Legible n) :
    v.toText = v.toNode.toText ∧
      ((∀ t w, k = option t → t.isTextual = true → v ≠ .some w) → k.ofText n.toText = .ok v) ∧
      ∀ t w, k = option t → t.isTextual = true → v = .some w →
        (k.ofText n.toText = .ok v ↔
          ∃ m, Node.ofText? w.toText = some m ∧ m ≠ .null ∧ t.ofNode m = .ok w) := by
  refine ⟨toText_eq hv, ?_, ?_⟩
  · intro hbare
    by_cases hopt : ∀ t, k ≠ option t
    · exact ofText_of_writes hk hopt hv hn hread
    · obtain ⟨t, rfl⟩ : ∃ t, k = option t := by simpa using hopt
      obtain ⟨-, hplain⟩ := isPlain_option.1 hk
      cases hv with
      | none =>
          obtain rfl := hn
          rfl
      | @some _ w hw =>
          have htextual : t.isTextual = false := by
            simpa using fun h => hbare t w rfl h rfl
          have htree := ofText?_of_writes hplain htextual hw hn hread
          rw [ofText_eq_ofNode rfl htree]
          exact ofNode_of_writes hk (.some hw) hn
  · -- the text is written bare, so everything depends on what YAML makes of it
    rintro t w rfl htextual rfl
    have hw : t.Has w := by
      cases hv with
      | some hw => exact hw
    have hn : t.Writes w n := hn
    have htext : n.toText = w.toText := by
      rw [toText_eq hw]
      refine congrArg Node.toText ?_
      cases t with
      | char => exact hn
      | string => exact hn
      | path => exact hn
      | _ => cases htextual
    rw [htext]
    exact ofText_option_eq_some

/-- Inside a map the text of an optional value is quoted where it has to be. The map has no order,
so it may be written with either entry first. -/
theorem ofText_of_isPlain_quoted :
    let k := Kind.map .hashed (.option .string)
    let v := Value.map [("a", .none), ("b", .some (.string "5.50"))]
    let n := Node.mapping [(.string "b", .string "5.50"), (.string "a", .null)]
    k.isPlain = true ∧ k.Has v ∧ k.Writes v n ∧ Legible n ∧
      n.toText = "b: '5.50'\na: null\n" ∧ k.ofText n.toText = .ok v := by
  intro k v n
  have hk : k.isPlain = true := rfl
  have hv : k.Has v := by
    refine .map ?_ (List.pairwise_pair.2 (by decide))
    simpa using ⟨.none, .some (.string "5.50")⟩
  have hn : k.Writes v n := by
    refine ⟨_, _, List.Perm.swap _ _ _, ?_, rfl⟩
    simp [Writes, Value.toNode]
  have hprint : Yaml.print n = some "b: '5.50'\na: null\n" := by decide +kernel
  have hscan : Yaml.Token.scan "b: '5.50'\na: null\n" = some [.blockMappingStart,
      .key, .scalar "b" true, .value, .scalar "5.50" false,
      .key, .scalar "a" true, .value, .scalar "null" true, .blockEnd] := by
    decide +kernel
  have hread : Yaml.read "b: '5.50'\na: null\n" = some n := by
    have hterm : Yaml.Term.ofTokens? [.blockMappingStart,
        .key, .scalar "b" true, .value, .scalar "5.50" false,
        .key, .scalar "a" true, .value, .scalar "null" true, .blockEnd]
        = some (some (.mapping none [(.scalar none "b" true, .scalar none "5.50" false),
          (.scalar none "a" true, .scalar none "null" true)]), {}) := rfl
    have hb : Yaml.resolve "b" = some (.string "b") := rfl
    have ha : Yaml.resolve "a" = some (.string "a") := rfl
    have hnull : Yaml.resolve "null" = some .null := rfl
    rw [Yaml.read_of_term hscan hterm]
    simp [n, Yaml.expand, Yaml.depthLimit, Yaml.deref, Yaml.expandEntries, Yaml.scalarNode,
      Yaml.untaggedScalar, Yaml.withTag, ha, hb, hnull, Node.hasKey, Node.same]
  have hlegible : Legible n := fun _ => ⟨_, hprint, hread⟩
  have htext : n.toText = "b: '5.50'\na: null\n" := by
    show (Yaml.print n).getD "" = _
    rw [hprint]
    rfl
  obtain ⟨-, hall, -⟩ := ofText_of_isPlain hk hv hn hlegible
  refine ⟨hk, hv, hn, hlegible, htext, hall ?_⟩
  intro t w hopt
  simp [k] at hopt

/-- Not every value of a plain kind comes back: an optional text that is a number is read as that
number, whose text may be another one. -/
theorem not_forall_ofText_toText :
    ¬ ∀ (k : Kind) (v : Value) (n : Node), k.isPlain = true → k.Has v → k.Writes v n → Legible n →
      ∃ w, k.ofText n.toText = .ok w ∧ v.same w = true := by
  intro hall
  have hlegible : Legible (.string "5.50") := fun hn => by cases hn
  obtain ⟨w, hread, hsame⟩ := hall (option string) (.some (.string "5.50")) (.string "5.50") rfl
    (.some (.string "5.50")) rfl hlegible
  have hother : ((option string).ofText (Node.string "5.50").toText).toOption.any
      (fun w => (Value.some (.string "5.50")).same w) = false := by
    decide +kernel
  rw [hread] at hother
  have hdiffer : (Value.some (.string "5.50")).same w = false := hother
  rw [hsame] at hdiffer
  cases hdiffer

end Kind

end ConfigLog
