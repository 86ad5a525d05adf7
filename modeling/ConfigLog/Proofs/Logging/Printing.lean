import ConfigLog.Proofs.Logging.Segments
import Mathlib.Data.List.Chain

set_option autoImplicit false

/-! # Pieces as patterns

Every list of pieces can be written as a pattern: literals with their percent signs doubled, and
each directive with an argument, so that no character behind it is taken for one. Compiling gives
back the pieces that were written, provided that they are normal, and nothing but normal lists comes
out of a pattern without the flag (`compileWith_print`).
-/

namespace ConfigLog.Logging.Pattern

/-! ## Printing -/

/-- Characters as a pattern has to show them. -/
def escaped (cs : List Char) : List Char := cs.flatMap fun c => if c = '%' then ['%', '%'] else [c]

/-- A directive with its argument. -/
def argued (name : Char) (argument : List Char) : List Char :=
  '%' :: name :: '\x7b' :: (argument ++ ['\x7d'])

/-- A piece as a part of a pattern. -/
def printed : Piece → List Char
  | .literal text => escaped text.toList
  | .time template => argued 'd' template.toList
  | .message => argued 'm' []
  | .level => argued 'p' []
  | .elapsed => argued 'r' []
  | .loggerName => argued 'c' []
  | .threadId => argued 't' []
  | .lineBreak => argued 'n' []
  | .file => argued 'f' []
  | .line => argued 'l' []
  | .tab => argued 'T' []
  | .taskId => argued 'F' []
  | .threadName => argued 'N' []

/-- The pattern that shows the pieces. -/
def print (us : List Piece) : String := String.ofList (us.flatMap printed)

/-- The piece is literal text. -/
def isLiteral : Piece → Bool
  | .literal _ => true
  | _ => false

/-- The piece can stand in a compiled pattern: text is not empty, and neither is the template of a
time, which is valid and can be an argument. -/
def Fits (valid : String → Bool) : Piece → Prop
  | .literal text => text ≠ ""
  | .time template => template ≠ "" ∧ '\x7d' ∉ template.toList ∧ valid template = true
  | _ => True

/-- At most one of two pieces is literal text. -/
def Apart (u v : Piece) : Prop := isLiteral u = false ∨ isLiteral v = false

/-- The lists of pieces that patterns are compiled to. -/
structure Normal (valid : String → Bool) (us : List Piece) : Prop where
  fits : ∀ u ∈ us, Fits valid u
  /-- Literal text is never split. -/
  apart : us.IsChain Apart

instance (valid : String → Bool) : (u : Piece) → Decidable (Fits valid u)
  | .literal text => inferInstanceAs (Decidable (text ≠ ""))
  | .time template => inferInstanceAs
      (Decidable (template ≠ "" ∧ '\x7d' ∉ template.toList ∧ valid template = true))
  | .message | .level | .elapsed | .loggerName | .threadId | .lineBreak | .file | .line | .tab
  | .taskId | .threadName => .isTrue trivial

instance (u v : Piece) : Decidable (Apart u v) :=
  inferInstanceAs (Decidable (isLiteral u = false ∨ isLiteral v = false))

instance (valid : String → Bool) (us : List Piece) : Decidable (Normal valid us) :=
  decidable_of_iff ((∀ u ∈ us, Fits valid u) ∧ us.IsChain Apart)
    ⟨fun h => ⟨h.1, h.2⟩, fun h => ⟨h.fits, h.apart⟩⟩

variable {valid : String → Bool} {us : List Piece} {u : Piece} {p : Progress}

/-! ## Printed pieces as segments -/

/-- The segments that a piece is printed as. -/
def segmentsOf : Piece → List Segment
  | .literal text => text.toList.map fun c => if c = '%' then .percent else .char c
  | .time template => [.directive 'd' (some template.toList)]
  | .message => [.directive 'm' (some [])]
  | .level => [.directive 'p' (some [])]
  | .elapsed => [.directive 'r' (some [])]
  | .loggerName => [.directive 'c' (some [])]
  | .threadId => [.directive 't' (some [])]
  | .lineBreak => [.directive 'n' (some [])]
  | .file => [.directive 'f' (some [])]
  | .line => [.directive 'l' (some [])]
  | .tab => [.directive 'T' (some [])]
  | .taskId => [.directive 'F' (some [])]
  | .threadName => [.directive 'N' (some [])]

theorem splits_escaped {rest : List Char} {ss : List Segment} (h : Splits rest ss)
    (cs : List Char) : Splits (escaped cs ++ rest)
      (cs.map (fun c => if c = '%' then Segment.percent else .char c) ++ ss) := by
  induction cs with
  | nil => exact h
  | cons c cs ih =>
      by_cases hc : c = '%'
      · subst hc
        exact .percent ih
      · have hcons : escaped (c :: cs) = c :: escaped cs := by simp [escaped, hc]
        rw [hcons, List.map_cons, if_neg hc]
        exact .char hc ih

/-- The argument keeps what follows a directive from being taken for one. -/
theorem splits_argued {name : Char} {argument rest : List Char} {ss : List Segment}
    (hname : name.isAlpha) (hargument : '\x7d' ∉ argument) (h : Splits rest ss) :
    Splits (argued name argument ++ rest) (.directive name (some argument) :: ss) := by
  have hshape : argued name argument ++ rest
      = '%' :: name :: '\x7b' :: (argument ++ '\x7d' :: rest) := by
    simp [argued]
  rw [hshape]
  exact .argued hname hargument h

theorem splits_printed {rest : List Char} {ss : List Segment} (hu : Fits valid u)
    (h : Splits rest ss) : Splits (printed u ++ rest) (segmentsOf u ++ ss) := by
  cases u with
  | literal text => exact splits_escaped h text.toList
  | time template => exact splits_argued (by decide) hu.2.1 h
  | _ => exact splits_argued (by decide) (by simp) h

theorem splits_print (hus : ∀ u ∈ us, Fits valid u) :
    Splits (us.flatMap printed) (us.flatMap segmentsOf) := by
  induction us with
  | nil => exact .nil
  | cons u us ih =>
      have hrest := ih fun v hv => hus v (List.mem_cons_of_mem u hv)
      rw [List.flatMap_cons, List.flatMap_cons]
      exact splits_printed (hus u List.mem_cons_self) hrest

/-- Nothing that is printed is faulty. -/
theorem faulty_segmentsOf (hu : Fits valid u) {s : Segment} (hs : s ∈ segmentsOf u) :
    s.faulty valid = false := by
  cases u with
  | literal text =>
      obtain ⟨c, -, rfl⟩ := List.mem_map.1 hs
      by_cases hc : c = '%' <;> simp [hc, Segment.faulty]
  | time template =>
      obtain ⟨hne, -, hvalid⟩ := hu
      obtain rfl := List.mem_singleton.1 hs
      simp [Segment.faulty, known, hne, hvalid]
  | _ =>
      obtain rfl := List.mem_singleton.1 hs
      rfl

/-! ## Taking in printed pieces -/

theorem foldl_take_literal (cs : List Char) (p : Progress) :
    (cs.map fun c => if c = '%' then Segment.percent else .char c).foldl (take valid) p
      = { p with literal := cs.reverse ++ p.literal } := by
  induction cs generalizing p with
  | nil => rfl
  | cons c cs ih =>
      have hc : take valid p (if c = '%' then .percent else .char c) = p.push c := by
        by_cases h : c = '%'
        · rw [if_pos h, h]
          rfl
        · rw [if_neg h]
          rfl
      rw [List.map_cons, List.foldl_cons, hc, ih]
      simp [Progress.push]

theorem foldl_take_directive (hu : Fits valid u) (hliteral : isLiteral u = false)
    (p : Progress) : (segmentsOf u).foldl (take valid) p = p.add u := by
  cases u with
  | literal text => cases hliteral
  | time template =>
      obtain ⟨hne, -, hvalid⟩ := hu
      simp [segmentsOf, take, directive, hne, hvalid]
  | _ => rfl

namespace Progress

theorem pieces_add (p : Progress) (u : Piece) : (p.add u).pieces = u :: p.flush.pieces := rfl

theorem flush_add (p : Progress) (u : Piece) : (p.add u).flush = p.add u :=
  flush_of_literal_eq_nil (p.literal_add u)

theorem pieces_flush_of_ne {p : Progress} (h : p.literal ≠ []) :
    p.flush.pieces = .literal (String.ofList p.literal.reverse) :: p.pieces := by
  rw [flush, if_neg (by simpa using h)]

end Progress

/-- Printed pieces come out as they are. Literal text that is still open in front of them would run
into literal text at their start. -/
theorem pieces_foldl_take (hus : Normal valid us) (p : Progress)
    (hopen : p.literal = [] ∨ ∀ u, us.head? = some u → isLiteral u = false) :
    ((us.flatMap segmentsOf).foldl (take valid) p).flush.pieces
      = us.reverse ++ p.flush.pieces := by
  induction us generalizing p with
  | nil => rfl
  | cons u us ih =>
      have hu : Fits valid u := hus.fits u List.mem_cons_self
      have hrest : Normal valid us :=
        ⟨fun v hv => hus.fits v (List.mem_cons_of_mem u hv), hus.apart.tail⟩
      rw [List.flatMap_cons, List.foldl_append, List.reverse_cons, List.append_assoc]
      by_cases hliteral : isLiteral u = true
      · -- the text stays open, so the next piece must not be text
        cases u with
        | literal text =>
            have hempty : p.literal = [] := hopen.resolve_right fun h => by
              simpa [isLiteral] using h _ rfl
            have hnext : ∀ v, us.head? = some v → isLiteral v = false := by
              intro v hv
              obtain ⟨vs, rfl⟩ := List.head?_eq_some_iff.1 hv
              have happart : Apart (.literal text) v := (List.isChain_cons_cons.1 hus.apart).1
              exact happart.resolve_left (by simp [isLiteral])
            have htext : text.toList.reverse ≠ [] := by
              have hne : text ≠ "" := hu
              simpa using hne
            have hpending := Progress.pieces_flush_of_ne
              (p := { p with literal := text.toList.reverse }) htext
            have hflush := Progress.flush_of_literal_eq_nil hempty
            rw [segmentsOf, foldl_take_literal, hempty, List.append_nil, ih hrest _ (.inr hnext),
              hpending, hflush]
            simp
        | _ => cases hliteral
      · have hdirective := foldl_take_directive hu (Bool.eq_false_iff.2 hliteral) p
        rw [hdirective, ih hrest _ (.inl (p.literal_add u)), p.flush_add, p.pieces_add]
        rfl

/-! ## What comes out of a pattern -/

/-- The pieces so far are normal and do not end with literal text, which is kept open instead. -/
structure Tidy (valid : String → Bool) (p : Progress) : Prop where
  normal : Normal valid p.pieces
  ends : ∀ u, p.pieces.head? = some u → isLiteral u = false

theorem Tidy.flush (h : Tidy valid p) : Normal valid p.flush.pieces := by
  by_cases hliteral : p.literal = []
  · rw [Progress.flush_of_literal_eq_nil hliteral]
    exact h.normal
  · rw [Progress.pieces_flush_of_ne hliteral]
    constructor
    · intro u hu
      rcases List.mem_cons.1 hu with rfl | hu
      · intro hempty
        have hnil := congrArg String.toList hempty
        simp [hliteral] at hnil
      · exact h.normal.fits u hu
    · rw [List.isChain_cons]
      exact ⟨fun u hu => .inr (h.ends u hu), h.normal.apart⟩

theorem Tidy.add (h : Tidy valid p) (hu : Fits valid u) (hliteral : isLiteral u = false) :
    Tidy valid (p.add u) := by
  have hflush := h.flush
  refine ⟨⟨?_, ?_⟩, ?_⟩
  · intro v hv
    rcases List.mem_cons.1 hv with rfl | hv
    · exact hu
    · exact hflush.fits v hv
  · rw [p.pieces_add, List.isChain_cons]
    exact ⟨fun v _ => .inl hliteral, hflush.apart⟩
  · intro v hv
    obtain rfl : u = v := Option.some.inj hv
    exact hliteral

/-- A directive that is known adds a piece that fits. -/
theorem exists_directive_eq_add {name : Char} {argument : List Char}
    (hknown : known valid name (String.ofList argument) = true) (hargument : '\x7d' ∉ argument)
    (p : Progress) : ∃ u, Fits valid u ∧ isLiteral u = false ∧
      directive valid name (String.ofList argument) p = p.add u := by
  unfold known at hknown
  unfold directive
  by_cases hname : (name == 'd') = true
  · rw [if_pos hname] at hknown
    have hdefault : '\x7d' ∉ defaultTemplate.toList := by decide
    have htemplate : Fits valid
        (.time (if String.ofList argument == "" then defaultTemplate
          else String.ofList argument)) := by
      by_cases hempty : argument = []
      · subst hempty
        exact ⟨by decide, hdefault, hknown⟩
      · have hne : (String.ofList argument == "") = false := by simpa using hempty
        rw [hne] at hknown ⊢
        exact ⟨by simpa using hempty, by simpa using hargument, hknown⟩
    refine ⟨_, htemplate, rfl, ?_⟩
    rw [if_pos hname]
    exact if_pos hknown
  · rw [if_neg hname] at hknown ⊢
    obtain ⟨u, hu⟩ := Option.isSome_iff_exists.1 hknown
    have hfits : Fits valid u ∧ isLiteral u = false := by
      unfold simplePiece at hu
      split at hu
      all_goals first
        | obtain rfl := Option.some.inj hu
          exact ⟨trivial, rfl⟩
        | cases hu
    refine ⟨u, hfits.1, hfits.2, ?_⟩
    simp only [hu]

/-- Segments none of which is faulty keep the pieces tidy. -/
theorem Splits.tidy {cs : List Char} {ss : List Segment} (h : Splits cs ss)
    (hfaulty : ss.any (·.faulty valid) = false) {p : Progress} (hp : Tidy valid p) :
    Tidy valid (ss.foldl (take valid) p) := by
  have hdirective : ∀ {name : Char} {argument : List Char} {p : Progress}, Tidy valid p →
      known valid name (String.ofList argument) = true → '\x7d' ∉ argument →
      Tidy valid (directive valid name (String.ofList argument) p) := by
    intro name argument p hp hknown hargument
    obtain ⟨u, hu, hliteral, heq⟩ := exists_directive_eq_add hknown hargument p
    rw [heq]
    exact hp.add hu hliteral
  induction h generalizing p with
  | nil => exact hp
  | char _ _ ih => exact ih hfaulty ⟨hp.normal, hp.ends⟩
  | percent _ ih => exact ih hfaulty ⟨hp.normal, hp.ends⟩
  | @bare name _ _ _ _ _ ih =>
      obtain ⟨hhead, hrest⟩ := Bool.or_eq_false_iff.1 hfaulty
      have hknown : known valid name (String.ofList []) = true := by
        simpa [Segment.faulty] using hhead
      exact ih hrest (hdirective hp hknown (by simp))
  | argued _ hargument _ ih =>
      obtain ⟨hhead, hrest⟩ := Bool.or_eq_false_iff.1 hfaulty
      exact ih hrest (hdirective hp (by simpa [Segment.faulty] using hhead) hargument)
  | stray _ _ _ => cases hfaulty
  | unclosed _ _ => cases hfaulty

theorem Normal.reverse (h : Normal valid us) : Normal valid us.reverse := by
  constructor
  · intro u hu
    exact h.fits u (List.mem_reverse.1 hu)
  · rw [List.isChain_reverse]
    exact h.apart.imp fun u v huv => huv.symm

/-! ## There and back -/

/-- A normal list of pieces comes back from its printed form. -/
theorem compileWith_print_of_normal (h : Normal valid us) :
    compileWith valid (print us) = { source := print us, pieces := us, malformed := false } := by
  have hsplits : Splits (print us).toList (us.flatMap segmentsOf) := by
    rw [print, String.toList_ofList]
    exact splits_print h.fits
  have hpieces := pieces_foldl_take h {} (.inl rfl)
  have hfaulty : (us.flatMap segmentsOf).any (·.faulty valid) = false := by
    rw [List.any_eq_false]
    intro s hs
    obtain ⟨u, hu, hs⟩ := List.mem_flatMap.1 hs
    rw [faulty_segmentsOf (h.fits u hu) hs]
    decide
  rw [hsplits.compileWith_eq, hpieces, hfaulty]
  simp [Progress.flush]

/-- A pattern without the flag is compiled to a normal list of pieces. -/
theorem normal_compileWith {source : String}
    (hwell : (compileWith valid source).malformed = false) :
    Normal valid (compileWith valid source).pieces := by
  obtain ⟨ss, hss⟩ := exists_splits source.toList
  rw [hss.compileWith_eq] at hwell ⊢
  have hstart : Tidy valid {} := by
    refine ⟨⟨?_, .nil⟩, ?_⟩
    · intro u hu
      cases hu
    · intro u hu
      cases hu
  exact (hss.tidy hwell hstart).flush.reverse

/-- Compiling undoes printing on all normal lists of pieces and gives no others. So what has been
compiled without the flag can be printed, and compiled again to the same pieces. -/
theorem compileWith_print (valid : String → Bool) :
    (∀ us, Normal valid us →
      compileWith valid (print us) = { source := print us, pieces := us, malformed := false }) ∧
    ∀ source, (compileWith valid source).malformed = false →
      Normal valid (compileWith valid source).pieces ∧
      compileWith valid (print (compileWith valid source).pieces) = {
        source := print (compileWith valid source).pieces
        pieces := (compileWith valid source).pieces
        malformed := false } := by
  refine ⟨fun us h => compileWith_print_of_normal h, ?_⟩
  intro source hwell
  have hnormal := normal_compileWith hwell
  exact ⟨hnormal, compileWith_print_of_normal hnormal⟩

/-- Braces behind a directive, a percent sign in text, and text that looks like a directive. -/
def braced : List Piece :=
  [.message, .literal "\x7b50% of\x7d", .time "%H:%M", .literal "%m", .lineBreak]

theorem compileWith_print_braced :
    Normal TimeFormat.universal.valid braced ∧
    print braced = "%m\x7b\x7d\x7b50%% of\x7d%d\x7b%H:%M\x7d%%m%n\x7b\x7d" ∧
    (compile .universal (print braced)).pieces = braced ∧
    Normal TimeFormat.universal.valid (compile .universal "%%a%d%m").pieces ∧
    (compile .universal (print (compile .universal "%%a%d%m").pieces)).pieces
      = [.literal "%a", .time defaultTemplate, .message] := by
  obtain ⟨hprint, hpattern⟩ := compileWith_print TimeFormat.universal.valid
  have hbraced : Normal TimeFormat.universal.valid braced := by decide
  obtain ⟨hnormal, hagain⟩ := hpattern "%%a%d%m" (by decide)
  refine ⟨hbraced, by decide, ?_, hnormal, ?_⟩
  · rw [compile, hprint braced hbraced]
  · rw [compile, compile, hagain]
    decide

end ConfigLog.Logging.Pattern
