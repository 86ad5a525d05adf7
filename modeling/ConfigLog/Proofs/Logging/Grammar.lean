import ConfigLog.Proofs.Logging.Segments

set_option autoImplicit false

/-! # The grammar of patterns

The patterns that compile without the flag are those of a grammar: plain characters, doubled percent
signs, and the known directives, each with its argument if a brace follows (`grammatical_iff`). All
other patterns are compiled to their end as well, and have the flag.
-/

namespace ConfigLog.Logging.Pattern

/-- The letters of the directives. -/
def letters : List Char := ['m', 'p', 'r', 'c', 't', 'n', 'd', 'f', 'l', 'T', 'F', 'N']

/-- The well-formed patterns. A brace behind the letter of a directive opens an argument, which has to
end; the argument of a time is empty or a valid template. -/
inductive Grammatical (valid : String → Bool) : List Char → Prop
  | nil : Grammatical valid []
  | char {c : Char} {cs : List Char} (hc : c ≠ '%') (h : Grammatical valid cs) :
      Grammatical valid (c :: cs)
  | percent {cs : List Char} (h : Grammatical valid cs) : Grammatical valid ('%' :: '%' :: cs)
  | bare {name : Char} {cs : List Char} (hname : name ∈ letters) (hcs : cs.head? ≠ some '\x7b')
      (h : Grammatical valid cs) : Grammatical valid ('%' :: name :: cs)
  | argued {name : Char} {argument cs : List Char} (hname : name ∈ letters)
      (hargument : '\x7d' ∉ argument)
      (hvalid : name = 'd' → argument = [] ∨ valid (String.ofList argument) = true)
      (h : Grammatical valid cs) :
      Grammatical valid ('%' :: name :: '\x7b' :: (argument ++ '\x7d' :: cs))

variable {valid : String → Bool} {name : Char} {cs : List Char} {ss : List Segment}

/-! ## Known directives -/

theorem isAlpha_of_mem_letters (hname : name ∈ letters) : name.isAlpha = true := by
  have hall : letters.all (·.isAlpha) = true := by decide
  exact List.all_eq_true.1 hall name hname

theorem isSome_simplePiece (hname : name ≠ 'd') :
    (simplePiece name).isSome = true ↔ name ∈ letters := by
  constructor
  · intro h
    unfold simplePiece at h
    split at h <;> first | decide | cases h
  · intro h
    have hall : letters.all (fun c => c == 'd' || (simplePiece c).isSome) = true := by decide
    simpa [hname] using List.all_eq_true.1 hall name h

/-- The directives with their arguments are those of the grammar. -/
theorem known_iff (hdefault : valid defaultTemplate = true) (argument : List Char) :
    known valid name (String.ofList argument) = true ↔
      name ∈ letters ∧ (name = 'd' → argument = [] ∨ valid (String.ofList argument) = true) := by
  unfold known
  by_cases hname : name = 'd'
  · subst hname
    have hmem : 'd' ∈ letters := by decide
    cases argument with
    | nil => simp [hdefault, hmem]
    | cons a argument => simp [hmem]
  · rw [if_neg (by simpa using hname), isSome_simplePiece hname]
    exact ⟨fun h => ⟨h, fun hd => absurd hd hname⟩, fun h => h.1⟩

/-! ## The grammar and the segments -/

/-- A well-formed pattern falls into segments none of which is faulty. -/
theorem Grammatical.splits (hdefault : valid defaultTemplate = true)
    (h : Grammatical valid cs) : ∃ ss, Splits cs ss ∧ ss.any (·.faulty valid) = false := by
  induction h with
  | nil => exact ⟨[], .nil, rfl⟩
  | char hc _ ih =>
      obtain ⟨ss, hss, hfaulty⟩ := ih
      exact ⟨_, .char hc hss, hfaulty⟩
  | percent _ ih =>
      obtain ⟨ss, hss, hfaulty⟩ := ih
      exact ⟨_, .percent hss, hfaulty⟩
  | bare hname hcs _ ih =>
      obtain ⟨ss, hss, hfaulty⟩ := ih
      have hknown := (known_iff hdefault []).2 ⟨hname, fun _ => .inl rfl⟩
      refine ⟨_, .bare (isAlpha_of_mem_letters hname) hcs hss, ?_⟩
      rw [List.any_cons, hfaulty, Bool.or_false]
      exact congrArg (!·) hknown
  | argued hname hargument hvalid _ ih =>
      obtain ⟨ss, hss, hfaulty⟩ := ih
      have hknown := (known_iff hdefault _).2 ⟨hname, hvalid⟩
      refine ⟨_, .argued (isAlpha_of_mem_letters hname) hargument hss, ?_⟩
      rw [List.any_cons, hfaulty, Bool.or_false]
      exact congrArg (!·) hknown

/-- Segments none of which is faulty make a well-formed pattern. -/
theorem Splits.grammatical (hdefault : valid defaultTemplate = true) (h : Splits cs ss)
    (hfaulty : ss.any (·.faulty valid) = false) : Grammatical valid cs := by
  induction h with
  | nil => exact .nil
  | char hc _ ih => exact .char hc (ih hfaulty)
  | percent _ ih => exact .percent (ih hfaulty)
  | bare _ hcs _ ih =>
      obtain ⟨hhead, hrest⟩ := Bool.or_eq_false_iff.1 hfaulty
      have hknown := (known_iff hdefault []).1 (by simpa [Segment.faulty] using hhead)
      exact .bare hknown.1 hcs (ih hrest)
  | @argued name argument _ _ _ hargument _ ih =>
      obtain ⟨hhead, hrest⟩ := Bool.or_eq_false_iff.1 hfaulty
      have hknown := (known_iff hdefault argument).1 (by simpa [Segment.faulty] using hhead)
      exact .argued hknown.1 hargument hknown.2 (ih hrest)
  | stray _ _ _ => cases hfaulty
  | unclosed _ _ => cases hfaulty

/-- A pattern compiles without the flag exactly if it is well formed, and then it can be parsed; all
others have the flag and are turned down. Whatever the pattern is, it falls into segments to its last
character, and all of them are taken in. -/
theorem grammatical_iff (hdefault : valid defaultTemplate = true) (source : String) :
    ((compileWith valid source).malformed = false ↔ Grammatical valid source.toList) ∧
    ((∃ p, parseWith valid source = .ok p) ↔ Grammatical valid source.toList) ∧
    (¬ Grammatical valid source.toList → (compileWith valid source).malformed = true ∧
      parseWith valid source = .error (.malformedPattern source)) ∧
    ∃ ss, Splits source.toList ss ∧ ss.flatMap (·.text) = source.toList ∧
      compileWith valid source = {
        source, pieces := (ss.foldl (take valid) {}).flush.pieces.reverse
        malformed := ss.any (·.faulty valid) } := by
  have hiff : (compileWith valid source).malformed = false ↔ Grammatical valid source.toList := by
    constructor
    · intro hwell
      obtain ⟨ss, hss⟩ := exists_splits source.toList
      rw [hss.compileWith_eq] at hwell
      exact hss.grammatical hdefault hwell
    · intro hgrammatical
      obtain ⟨ss, hss, hfaulty⟩ := hgrammatical.splits hdefault
      rw [hss.compileWith_eq]
      exact hfaulty
  refine ⟨hiff, ?_, fun hnot => ?_, ?_⟩
  · rw [← hiff, parseWith]
    cases (compileWith valid source).malformed <;> simp
  · have hmalformed : (compileWith valid source).malformed = true :=
      eq_true_of_ne_false fun h => hnot (hiff.1 h)
    exact ⟨hmalformed, if_pos hmalformed⟩
  · obtain ⟨ss, hss⟩ := exists_splits source.toList
    exact ⟨ss, hss, hss.flatMap_text, hss.compileWith_eq⟩

theorem grammatical_iff_calendar :
    Grammatical TimeFormat.universal.valid "[%p] %d\x7b%H:%M\x7d %m%%%n".toList ∧
      ¬ Grammatical TimeFormat.universal.valid "%m\x7b".toList ∧
      parse .universal "%m\x7b" = .error (.malformedPattern "%m\x7b") := by
  have hdefault := TimeFormat.universal.valid_default
  obtain ⟨hwell, -⟩ := grammatical_iff hdefault "[%p] %d\x7b%H:%M\x7d %m%%%n"
  obtain ⟨hopen, -, hrejected, -⟩ := grammatical_iff hdefault "%m\x7b"
  have hnot : ¬ Grammatical TimeFormat.universal.valid "%m\x7b".toList := by
    rw [← hopen]
    decide
  exact ⟨hwell.1 (by decide), hnot, (hrejected hnot).2⟩

end ConfigLog.Logging.Pattern
