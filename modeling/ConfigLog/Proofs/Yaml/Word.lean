import ConfigLog.Proofs.Number.Whole
import ConfigLog.Yaml.Read

set_option autoImplicit false

/-! # Words in YAML text

A text of letters, digits, underscores and dashes is a single plain scalar, so it is read as what it
resolves to (`read_word`), unless it is a dash alone or a document marker. In particular a whole
number of 64 bits is read back from its decimal text (`read_intText`).
-/

namespace ConfigLog.Yaml

/-! ## Characters of words -/

/-- A character of a word is none of those that mean something else. -/
theorem beq_of_isWord {c d : Char} (hc : isWord c = true) (hd : isWord d = false) :
    (c == d) = false := by
  rw [beq_eq_false_iff_ne]
  rintro rfl
  rw [hc] at hd
  cases hd

theorem contains_of_isWord {c : Char} (hc : isWord c = true) {ds : List Char}
    (hds : ds.all (fun d => !isWord d) = true) : ds.contains c = false := by
  rw [List.contains_eq_mem, decide_eq_false_iff_not]
  intro hmem
  have hnot := List.all_eq_true.1 hds c hmem
  rw [hc] at hnot
  cases hnot

theorem isAllowed_of_isWord {c : Char} (hc : isWord c = true) : isAllowed c = true := by
  have hrange : 0x20 ≤ c.toNat ∧ c.toNat ≤ 0x7e := by
    simp only [isWord, Bool.or_eq_true, beq_iff_eq] at hc
    rcases hc with (halphanum | rfl) | rfl
    · have hletter : (decide (c.val ≥ 'A'.val ∧ c.val ≤ 'Z'.val) ||
          (decide (c.val ≥ 'a'.val) && decide (c.val ≤ 'z'.val)) ||
          (decide (c.val ≥ '0'.val) && decide (c.val ≤ '9'.val))) = true := halphanum
      simp only [Bool.or_eq_true, Bool.and_eq_true, decide_eq_true_eq] at hletter
      have hcases : ((65 ≤ c.toNat ∧ c.toNat ≤ 90) ∨ (97 ≤ c.toNat ∧ c.toNat ≤ 122)) ∨
          (48 ≤ c.toNat ∧ c.toNat ≤ 57) := hletter
      omega
    · decide
    · decide
  simp [isAllowed, hrange]

theorem isGap_of_isWord {c : Char} (hc : isWord c = true) : isGap c = false := by
  simp (disch := decide) only [isGap, isSpace, isBreak, beq_of_isWord hc, Bool.or_false]

theorem isWord_of_isDigit {c : Char} (hc : c.isDigit = true) : isWord c = true := by
  simp [isWord, Char.isAlphanum, hc]

/-! ## The scalar -/

variable {cs : List Char}

/-- A word goes on to the end of the text. -/
theorem plainWord_word (h : ∀ c ∈ cs, isWord c = true) : plainWord false cs = some (cs, []) := by
  induction cs with
  | nil => rfl
  | cons c r ih =>
      have hc := h c List.mem_cons_self
      have hcolon : (c == ':') = false := beq_of_isWord hc (by decide)
      rw [plainWord, isGap_of_isWord hc, hcolon, ih fun d hd => h d (List.mem_cons_of_mem c hd)]
      rfl

theorem gapFollows_word (h : ∀ c ∈ cs, isWord c = true) (hne : cs ≠ []) :
    gapFollows cs = false := by
  cases cs with
  | nil => exact absurd rfl hne
  | cons c r => exact isGap_of_isWord (h c List.mem_cons_self)

/-- A text that is one plain scalar: a word, but neither a dash alone nor three dashes. -/
structure IsWordText (cs : List Char) : Prop where
  ne_nil : cs ≠ []
  chars : ∀ c ∈ cs, isWord c = true
  notEntry : cs ≠ ['-']
  notMarker : markerFollows '-' cs = false

/-! ## Scanning -/

theorem Cursor.moveTo_self (c : Cursor) : c.moveTo c.rest = c := by
  simp [Cursor.moveTo, Cursor.drop, byteCount]

theorem Cursor.skip_eq_self {c : Cursor} {p : Char → Bool}
    (h : ∀ d ∈ c.rest.head?, p d = false) : c.skip p = c := by
  have hdrop : c.rest.dropWhile p = c.rest := by
    cases hrest : c.rest with
    | nil => rfl
    | cons d r => simp [h d (by simp [hrest])]
  rw [skip, hdrop, moveTo_self]

theorem Cursor.skipComment_eq_self {c : Cursor} (h : ∀ d ∈ c.rest.head?, d ≠ '#') :
    c.skipComment = c := by
  unfold skipComment
  split
  · rename_i r hrest
    exact absurd rfl (h '#' (by simp [hrest]))
  · rfl

/-- Nothing is left out before a token. -/
theorem Scanner.skipToToken_eq_self {s : Scanner}
    (h : ∀ d ∈ s.cursor.rest.head?, isGap d = false ∧ d ≠ '#' ∧ d ≠ '\ufeff') (fuel : Nat) :
    skipToToken (fuel + 1) s = s := by
  have hmark : (s.cursor.column == 0 && s.cursor.rest.head? == some '\ufeff') = false := by
    rw [Bool.and_eq_false_iff, beq_eq_false_iff_ne (a := s.cursor.rest.head?)]
    exact .inr fun hhead => (h _ hhead).2.2 rfl
  have hskip : (s.cursor.skip fun ch => ch == ' ' || ((s.inFlow || !s.keyAllowed) && ch == '\t'))
      = s.cursor := by
    refine Cursor.skip_eq_self fun d hd => ?_
    have hspace := (Bool.or_eq_false_iff.1 (h d hd).1).1
    obtain ⟨hblank, htab⟩ := Bool.or_eq_false_iff.1 hspace
    rw [hblank, htab, Bool.and_false]
    rfl
  have hcomment : s.cursor.skipComment = s.cursor :=
    Cursor.skipComment_eq_self fun d hd => (h d hd).2.1
  rw [skipToToken]
  simp only [hmark, hskip, hcomment, Bool.false_eq_true, if_false]
  split
  · rfl
  · rename_i d r hrest
    have hbreak := (Bool.or_eq_false_iff.1 (h d (by simp [hrest])).1).2
    rw [hbreak]
    rfl

/-- The cursor behind a text without line breaks. -/
def Cursor.ended (cs : List Char) : Cursor := ⟨[], byteCount cs, 0, cs.length⟩

theorem Cursor.moveTo_nil (cs : List Char) : (Cursor.start cs).moveTo [] = .ended cs := by
  simp [Cursor.moveTo, Cursor.drop, Cursor.start, Cursor.ended]

/-- The state behind a word. -/
def Scanner.behind (cs : List Char) : Scanner :=
  { cursor := .ended cs
    tokens := #[.scalar (String.ofList cs) true]
    indent := -1
    outerIndents := []
    keyAllowed := false
    key := some ⟨0, 0, 0, 0, false⟩
    outerKeys := [] }

namespace IsWordText

theorem notEnd (h : IsWordText cs) : markerFollows '.' cs = false := by
  unfold markerFollows
  split
  · rename_i c _ _ _
    have hc : isWord c = true := h.chars c List.mem_cons_self
    simp (disch := decide) only [beq_of_isWord hc, Bool.false_and]
  · rfl

theorem plainScalar (h : IsWordText cs) :
    Yaml.plainScalar false 0 (.start cs) = some (String.ofList cs, false, .ended cs) := by
  have hdash : (Cursor.start cs).atMarker '-' = false := h.notMarker
  have hdot : (Cursor.start cs).atMarker '.' = false := h.notEnd
  have hhash : ((Cursor.start cs).rest.head? == some '#') = false := by
    rw [beq_eq_false_iff_ne]
    intro hhead
    cases h.chars '#' (List.mem_of_head? hhead)
  have hword : plainWord false (Cursor.start cs).rest = some (cs, []) := plainWord_word h.chars
  have hwords : plainWords false 0 (cs.length + 1) "" {} (.start cs)
      = some (String.ofList cs, {}, .ended cs) := by
    rw [plainWords, hdash, hdot, hword]
    simp [hhash, h.ne_nil, Cursor.moveTo_nil, Cursor.ended, Gap.text]
  rw [Yaml.plainScalar]
  show (plainWords false 0 (cs.length + 1) "" {} (.start cs) >>= fun _ => _) = _
  rw [hwords]
  rfl

theorem startsPlain (h : IsWordText cs) {c : Char} {r : List Char} (hcs : cs = c :: r) :
    Scanner.startsPlain false c r = true := by
  have hc : isWord c = true := h.chars c (by simp [hcs])
  have hindicator : ",[]\x7b\x7d#&*!|>'\"%@`".toList.contains c = false :=
    contains_of_isWord hc (by decide)
  have hspace : r.head?.any isSpace = false := by
    cases r with
    | nil => rfl
    | cons d r =>
        have hd : isWord d = true := h.chars d (by simp [hcs])
        have hgap := isGap_of_isWord hd
        exact (Bool.or_eq_false_iff.1 hgap).1
  unfold Scanner.startsPlain
  split
  · rw [hspace]
    rfl
  · simp (disch := decide) only [beq_of_isWord hc, isGap_of_isWord hc, hindicator, Bool.or_false,
      Bool.false_eq_true, if_false, Bool.not_false]

/-- The word is one plain scalar. -/
theorem token (h : IsWordText cs) {c : Char} {r : List Char} (hcs : cs = c :: r) :
    (Scanner.start cs).token c r = (Scanner.start cs).plain := by
  have hc : isWord c = true := h.chars c (by simp [hcs])
  have hdash : (Scanner.start cs).cursor.atMarker '-' = false := h.notMarker
  have hdot : (Scanner.start cs).cursor.atMarker '.' = false := h.notEnd
  -- a dash starts an entry only in front of a gap, and there is none in the word
  have hentry : (c == '-' && gapFollows r) = false := by
    by_cases hr : r = []
    · have hne : c ≠ '-' := by
        rintro rfl
        exact h.notEntry (by rw [hcs, hr])
      simp [hne]
    · have hrest : ∀ d ∈ r, isWord d = true := fun d hd => h.chars d (by simp [hcs, hd])
      simp [gapFollows_word hrest hr]
  have hplain : Scanner.startsPlain (Scanner.start cs).inFlow c r = true := h.startsPlain hcs
  unfold Scanner.token
  simp (disch := decide) only [beq_of_isWord hc, Bool.and_false, Bool.false_and,
    Bool.false_eq_true, if_false, hdash, hdot, hentry, hplain, if_true]

theorem plain (h : IsWordText cs) : (Scanner.start cs).plain = some (.behind cs) := by
  rw [Scanner.plain]
  show (Yaml.plainScalar false 0 (.start cs) >>= fun _ => _) = _
  rw [h.plainScalar]
  rfl

/-- The end of the text comes behind the word. The place where a key may have started is forgotten
when the word is long, as no key has to be there. -/
theorem run_behind (cs : List Char) (fuel : Nat) :
    ∃ s, Scanner.run (fuel + 1) (.behind cs) = some s ∧
      s.tokens = #[.scalar (String.ofList cs) true] := by
  have hskip : Scanner.skipToToken 1 (.behind cs) = .behind cs :=
    Scanner.skipToToken_eq_self (fun d hd => by cases hd) 0
  have hrefresh : ∃ key, Scanner.PossibleKey.refresh (.ended cs) (some ⟨0, 0, 0, 0, false⟩)
      = some key ∧ key.any (·.required) = false := by
    unfold Scanner.PossibleKey.refresh
    simp only [Bool.false_eq_true, if_false]
    split
    · exact ⟨none, rfl, rfl⟩
    · exact ⟨_, rfl, rfl⟩
  obtain ⟨key, hkey, hrequired⟩ := hrefresh
  have hkeys : (Scanner.behind cs).refreshKeys = some { Scanner.behind cs with key } := by
    rw [Scanner.refreshKeys]
    show (Scanner.PossibleKey.refresh (.ended cs) (some ⟨0, 0, 0, 0, false⟩) >>= fun _ => _) = _
    rw [hkey]
    rfl
  refine ⟨{ Scanner.behind cs with key := none }, ?_, rfl⟩
  rw [Scanner.run]
  show ((Scanner.skipToToken 1 (.behind cs)).refreshKeys >>= fun _ => _) = _
  rw [hskip, hkeys]
  show (Scanner.atMargin { Scanner.behind cs with key }) = _
  rw [Scanner.atMargin]
  show (Scanner.forgetKey { Scanner.behind cs with key } >>= fun _ => _) = _
  rw [Scanner.forgetKey, hrequired]
  rfl

theorem run (h : IsWordText cs) (fuel : Nat) :
    Scanner.run (fuel + 2) (.start cs) = Scanner.run (fuel + 1) (.behind cs) := by
  -- a word starts with none of the characters that are left out before a token
  have hskip : Scanner.skipToToken ((Scanner.start cs).cursor.rest.length + 1) (.start cs)
      = .start cs := by
    refine Scanner.skipToToken_eq_self (fun d hd => ?_) _
    have hd : isWord d = true := h.chars d (List.mem_of_head? hd)
    refine ⟨isGap_of_isWord hd, ?_, ?_⟩
    · rintro rfl
      cases hd
    · rintro rfl
      cases hd
  obtain ⟨c, r, rfl⟩ := List.exists_cons_of_ne_nil h.ne_nil
  rw [Scanner.run, hskip]
  show ((Scanner.start (c :: r)).token c r >>= fun _ => _) = _
  rw [h.token rfl, h.plain]
  rfl

theorem scan (h : IsWordText cs) :
    Token.scan (String.ofList cs) = some [.scalar (String.ofList cs) true] := by
  have hallowed : cs.all isAllowed = true := by
    rw [List.all_eq_true]
    exact fun c hc => isAllowed_of_isWord (h.chars c hc)
  obtain ⟨s, hs, htokens⟩ := run_behind cs cs.length
  unfold Token.scan
  simp only [String.toList_ofList, hallowed, h.run, hs]
  simp [htokens]

end IsWordText

/-! ## Meaning -/

theorem ofTokens?_scalar (s : String) :
    Term.ofTokens? [.scalar s true] = some (some (.scalar none s true), {}) := by
  rfl

/-- A text is read by way of its tokens and its term. -/
theorem read_of_term {text : String} {tokens : List Token} {term : Term} {anchors : Anchors}
    (hscan : Token.scan text = some tokens)
    (hterm : Term.ofTokens? tokens = some (some term, anchors)) :
    read text = (expand anchors (100 * term.size) depthLimit term).run' 0 := by
  simp only [read, hscan, hterm, Option.bind_eq_bind, Option.bind_some]

/-- A word is read as what it resolves to. -/
theorem read_word (h : IsWordText cs) :
    read (String.ofList cs) = resolve (String.ofList cs) := by
  rw [read_of_term h.scan (ofTokens?_scalar _)]
  simp [expand, deref, scalarNode, untaggedScalar]

/-! ## Truth values -/

theorem read_bool (b : Bool) :
    read (if b then "true" else "false") = some (.bool b) := by
  have htrue : IsWordText "true".toList :=
    ⟨by decide, List.all_eq_true.1 (by decide), by decide, by decide⟩
  have hfalse : IsWordText "false".toList :=
    ⟨by decide, List.all_eq_true.1 (by decide), by decide, by decide⟩
  cases b with
  | true => exact (read_word htrue).trans rfl
  | false => exact (read_word hfalse).trans rfl

/-! ## Whole numbers -/

open Number

theorem ne_minus_of_isDigit {c : Char} (hc : c.isDigit = true) : (c == '-') = false := by
  rw [beq_eq_false_iff_ne]
  rintro rfl
  cases hc

theorem isWordText_intText (i : Int) : IsWordText (intText i) := by
  have hchars : ∀ c ∈ intText i, isWord c = true := by
    intro c hc
    rcases mem_intText hc with rfl | hdigit
    · decide
    · exact isWord_of_isDigit hdigit
  obtain ⟨c, r, hr⟩ := List.exists_cons_of_ne_nil (natText_ne_nil i.natAbs)
  have hc := ne_minus_of_isDigit (isDigit_of_mem_natText (by rw [hr]; exact List.mem_cons_self))
  rcases intText_cases i with ⟨-, htext⟩ | ⟨-, htext⟩
  · rw [htext, hr] at hchars ⊢
    refine ⟨by simp, hchars, by simp, ?_⟩
    cases r <;> simp [markerFollows, hc]
  · rw [htext, hr] at hchars ⊢
    refine ⟨by simp, hchars, ?_, ?_⟩
    · intro h
      rw [(List.cons.inj h).1] at hc
      cases hc
    · match r with
      | [] => rfl
      | [_] => rfl
      | _ :: _ :: _ => simp [markerFollows, hc]

/-- A whole number is none of some words that each have a letter or a mark in them. -/
theorem contains_intText (i : Int) {words : List String}
    (h : words.all (fun w => w.toList.any fun c => c != '-' && !c.isDigit) = true) :
    words.contains (String.ofList (intText i)) = false := by
  rw [List.contains_eq_mem, decide_eq_false_iff_not]
  intro hmem
  obtain ⟨c, hc, hother⟩ := List.any_eq_true.1 (List.all_eq_true.1 h _ hmem)
  rw [String.toList_ofList] at hc
  rcases mem_intText hc with rfl | hdigit
  · cases hother
  · simp [hdigit] at hother

/-- A whole number is written without a superfluous zero. -/
theorem isZeroPadded_intText (i : Int) : isZeroPadded (intText i) = false := by
  rcases intText_cases i with ⟨-, htext⟩ | ⟨-, htext⟩
  · rw [htext]
    unfold isZeroPadded
    simp only
    split
    · rename_i d r h
      cases natText_eq_zero_cons h
    · rfl
  · rw [htext]
    unfold isZeroPadded
    simp only
    split
    · rename_i d r h
      split at h
      · cases isDigit_of_natText_eq ‹_›
      · cases isDigit_of_natText_eq ‹_›
      · cases natText_eq_zero_cons h
    · rfl

theorem markedDigits_natText (n : Nat) : markedDigits (natText n) = none := by
  have hnot : ∀ (c : Char) (r : List Char), natText n = '0' :: c :: r → c.isDigit = true := by
    intro c r h
    exact isDigit_of_mem_natText (by rw [h]; simp)
  unfold markedDigits
  split
  · cases hnot _ _ ‹_›
  · cases hnot _ _ ‹_›
  · cases hnot _ _ ‹_›
  · rfl

theorem wholeOf?_intText (i : Int) : wholeOf? (intText i) = some i := by
  have hpadded := isZeroPadded_intText i
  unfold wholeOf?
  rcases intText_cases i with ⟨hneg, htext⟩ | ⟨hnonneg, htext⟩
  · have habs : -(i.natAbs : Int) = i := by omega
    rw [htext] at hpadded ⊢
    simp only [hpadded, markedDigits_natText, natOfDigits_natText]
    exact congrArg some habs
  · have habs : (i.natAbs : Int) = i := by omega
    rw [htext] at hpadded ⊢
    simp only [hpadded]
    split
    · rename_i r h
      cases isDigit_of_natText_eq h
    · rename_i r h
      cases isDigit_of_natText_eq h
    · simp only [markedDigits_natText, natOfDigits_natText]
      exact congrArg some habs

/-- A whole number that fits into a tree is read back from its text. -/
theorem read_intText {i : Int} (hlow : -2 ^ 63 ≤ i) (hhigh : i < 2 ^ 64) :
    read (String.ofList (intText i)) = some (.integer i) := by
  have hnull : isNullWord (String.ofList (intText i)) = false := contains_intText i (by decide)
  have hbool : boolOf? (String.ofList (intText i)) = none := by
    unfold boolOf?
    rw [contains_intText i (by decide), contains_intText i (by decide)]
    rfl
  have hempty : (String.ofList (intText i) == "") = false := by
    simpa using (isWordText_intText i).ne_nil
  have hwhole : Whole.of (intText i) = .node i := by
    have hfits : (decide (-(Nat.pow 2 63 : Int) ≤ i) && decide (i < (Nat.pow 2 64 : Int)))
        = true := by
      simpa using ⟨hlow, hhigh⟩
    rw [Whole.of, wholeOf?_intText]
    exact if_pos hfits
  rw [read_word (isWordText_intText i), resolve, hempty, hnull, hbool, String.toList_ofList, hwhole]
  rfl

end ConfigLog.Yaml
