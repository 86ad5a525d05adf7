import ConfigLog.Logging.Pattern

set_option autoImplicit false

/-! # Segments of patterns

Every pattern falls into segments from left to right (`exists_splits`), and compiling it takes in one
segment after the other, up to its end (`compileWith_eq`). A segment that is faulty leaves a marker
and the flag, and none of them has a part in what becomes of the others.
-/

namespace ConfigLog.Logging.Pattern

/-! ## Segments -/

/-- A part of a pattern. -/
inductive Segment where
  | char (c : Char)
  /-- Two percent signs, which stand for one. -/
  | percent
  | directive (name : Char) (argument : Option (List Char))
  /-- A percent sign that starts no directive. -/
  | stray
  /-- A directive with an argument that does not end. -/
  | unclosed (name : Char) (argument : List Char)
  deriving DecidableEq, Repr

/-- The characters of a segment. -/
def Segment.text : Segment → List Char
  | char c => [c]
  | percent => ['%', '%']
  | directive name none => ['%', name]
  | directive name (some argument) => '%' :: name :: '\x7b' :: (argument ++ ['\x7d'])
  | stray => ['%']
  | unclosed name argument => '%' :: name :: '\x7b' :: argument

/-- The characters fall into segments from left to right. Behind the letter of a directive a brace
always opens an argument, and a percent sign is stray when neither another one nor a letter follows.
-/
inductive Splits : List Char → List Segment → Prop
  | nil : Splits [] []
  | char {c : Char} {cs : List Char} {ss : List Segment} (hc : c ≠ '%') (h : Splits cs ss) :
      Splits (c :: cs) (.char c :: ss)
  | percent {cs : List Char} {ss : List Segment} (h : Splits cs ss) :
      Splits ('%' :: '%' :: cs) (.percent :: ss)
  | bare {name : Char} {cs : List Char} {ss : List Segment} (hname : name.isAlpha)
      (hcs : cs.head? ≠ some '\x7b') (h : Splits cs ss) :
      Splits ('%' :: name :: cs) (.directive name none :: ss)
  | argued {name : Char} {argument cs : List Char} {ss : List Segment} (hname : name.isAlpha)
      (hargument : '\x7d' ∉ argument) (h : Splits cs ss) :
      Splits ('%' :: name :: '\x7b' :: (argument ++ '\x7d' :: cs))
        (.directive name (some argument) :: ss)
  | stray {cs : List Char} {ss : List Segment}
      (hcs : ∀ c, cs.head? = some c → c ≠ '%' ∧ c.isAlpha = false) (h : Splits cs ss) :
      Splits ('%' :: cs) (.stray :: ss)
  | unclosed {name : Char} {argument : List Char} (hname : name.isAlpha)
      (hargument : '\x7d' ∉ argument) :
      Splits ('%' :: name :: '\x7b' :: argument) [.unclosed name argument]

/-- No character is left out. -/
theorem Splits.flatMap_text {cs : List Char} {ss : List Segment} (h : Splits cs ss) :
    ss.flatMap (·.text) = cs := by
  induction h with
  | nil => rfl
  | char _ _ ih => rw [List.flatMap_cons, ih]; rfl
  | percent _ ih => rw [List.flatMap_cons, ih]; rfl
  | bare _ _ _ ih => rw [List.flatMap_cons, ih]; rfl
  | argued _ _ _ ih => rw [List.flatMap_cons, ih]; simp [Segment.text]
  | stray _ _ ih => rw [List.flatMap_cons, ih]; rfl
  | unclosed _ _ => simp [Segment.text]

/-- Behind a percent sign and a letter there is a directive, with an argument if a brace follows. -/
theorem exists_splits_letter {name : Char} {cs : List Char} (hname : name.isAlpha)
    (hrest : ∀ rest : List Char, rest.length ≤ cs.length → ∃ ss, Splits rest ss) :
    ∃ ss, Splits ('%' :: name :: cs) ss := by
  by_cases hopen : cs.head? = some '\x7b'
  · obtain ⟨rest, rfl⟩ := List.head?_eq_some_iff.1 hopen
    by_cases hclose : '\x7d' ∈ rest
    · obtain ⟨argument, after, rfl, hargument⟩ := List.eq_append_cons_of_mem hclose
      obtain ⟨ss, hss⟩ := hrest after (by simp; omega)
      exact ⟨_, .argued hname hargument hss⟩
    · exact ⟨_, .unclosed hname hclose⟩
  · obtain ⟨ss, hss⟩ := hrest cs (Nat.le_refl _)
    exact ⟨_, .bare hname hopen hss⟩

theorem exists_splits_percent {cs : List Char}
    (hrest : ∀ rest : List Char, rest.length ≤ cs.length → ∃ ss, Splits rest ss) :
    ∃ ss, Splits ('%' :: cs) ss := by
  obtain ⟨ss, hss⟩ := hrest cs (Nat.le_refl _)
  cases cs with
  | nil => exact ⟨_, .stray (fun c hc => by cases hc) hss⟩
  | cons c cs =>
      have hle : ∀ rest : List Char, rest.length ≤ cs.length → ∃ ss, Splits rest ss :=
        fun rest h => hrest rest (Nat.le_succ_of_le h)
      by_cases hpercent : c = '%'
      · obtain ⟨ss', hss'⟩ := hle cs (Nat.le_refl _)
        rw [hpercent]
        exact ⟨_, .percent hss'⟩
      · by_cases hname : c.isAlpha
        · exact exists_splits_letter hname hle
        · refine ⟨_, .stray (fun d hd => ?_) hss⟩
          obtain rfl := Option.some.inj hd
          exact ⟨hpercent, Bool.eq_false_iff.2 hname⟩

theorem exists_splits (cs : List Char) : ∃ ss, Splits cs ss := by
  induction hn : cs.length using Nat.strongRecOn generalizing cs with
  | ind n ih =>
      subst hn
      cases cs with
      | nil => exact ⟨[], .nil⟩
      | cons c cs =>
          have hrest : ∀ rest : List Char, rest.length ≤ cs.length → ∃ ss, Splits rest ss :=
            fun rest h => ih rest.length (Nat.lt_succ_of_le h) rest rfl
          by_cases hc : c = '%'
          · rw [hc]
            exact exists_splits_percent hrest
          · obtain ⟨ss, hss⟩ := hrest cs (Nat.le_refl _)
            exact ⟨_, .char hc hss⟩

/-! ## Taking in segments -/

section

variable (valid : String → Bool)

/-- Takes in one segment. -/
def take (p : Progress) : Segment → Progress
  | .char c => p.push c
  | .percent => p.push '%'
  | .directive name argument => directive valid name (String.ofList (argument.getD [])) p
  | .stray => p.mark strayMarker
  | .unclosed .. => p.mark openMarker

/-- A directive of this name can have this argument. -/
def known (name : Char) (argument : String) : Bool :=
  if name == 'd' then valid (if argument == "" then defaultTemplate else argument)
  else (simplePiece name).isSome

/-- The segment leaves a marker. -/
def Segment.faulty : Segment → Bool
  | char _ | percent => false
  | directive name argument => !known valid name (String.ofList (argument.getD []))
  | stray | unclosed .. => true

end

variable {valid : String → Bool} {name : Char} {cs : List Char} {ss : List Segment} {p : Progress}

namespace Progress

theorem malformed_flush (p : Progress) : p.flush.malformed = p.malformed := by
  unfold flush
  split <;> rfl

theorem literal_flush (p : Progress) : p.flush.literal = [] := by
  unfold flush
  split
  · rename_i hempty
    simpa using hempty
  · rfl

theorem literal_add (p : Progress) (piece : Piece) : (p.add piece).literal = [] :=
  p.literal_flush

/-- There is no literal to finish behind a piece. -/
theorem flush_of_literal_eq_nil {p : Progress} (h : p.literal = []) : p.flush = p := by
  rw [flush, h]
  rfl

theorem flush_mark (p : Progress) (text : String) : (p.mark text).flush = p.mark text :=
  flush_of_literal_eq_nil (literal_add p (.literal text))

end Progress

/-- A directive is a piece if its name and its argument are known, and a marker otherwise. -/
theorem directive_cases (valid : String → Bool) (name : Char) (argument : String) (p : Progress) :
    (known valid name argument = true ∧ ∃ piece, directive valid name argument p = p.add piece) ∨
      (known valid name argument = false ∧ ∃ text, directive valid name argument p = p.mark text) := by
  unfold directive known
  by_cases hname : (name == 'd') = true
  · rw [if_pos hname, if_pos hname]
    generalize (if argument == "" then defaultTemplate else argument) = template
    cases hvalid : valid template with
    | true => exact .inl ⟨rfl, _, if_pos hvalid⟩
    | false => exact .inr ⟨rfl, _, if_neg (Bool.eq_false_iff.1 hvalid)⟩
  · rw [if_neg hname, if_neg hname]
    cases simplePiece name with
    | none => exact .inr ⟨rfl, _, rfl⟩
    | some piece => exact .inl ⟨rfl, piece, rfl⟩

theorem flush_directive (valid : String → Bool) (name : Char) (argument : String) (p : Progress) :
    (directive valid name argument p).flush = directive valid name argument p := by
  rcases directive_cases valid name argument p with ⟨-, piece, h⟩ | ⟨-, text, h⟩ <;> rw [h]
  · exact Progress.flush_of_literal_eq_nil (p.literal_add piece)
  · exact p.flush_mark text

/-- A directive sets the flag when its name or its argument is not known. -/
theorem malformed_directive (valid : String → Bool) (name : Char) (argument : String)
    (p : Progress) : (directive valid name argument p).malformed
      = (p.malformed || !known valid name argument) := by
  rcases directive_cases valid name argument p with ⟨hknown, piece, h⟩ | ⟨hknown, text, h⟩ <;>
    rw [h, hknown]
  · rw [Bool.not_true, Bool.or_false]
    exact p.malformed_flush
  · rw [Bool.not_false, Bool.or_true]
    rfl

/-- The flag tells whether there has been a faulty segment. -/
theorem malformed_foldl_take (ss : List Segment) (p : Progress) :
    (ss.foldl (take valid) p).malformed = (p.malformed || ss.any (·.faulty valid)) := by
  induction ss generalizing p with
  | nil => rw [List.foldl_nil, List.any_nil, Bool.or_false]
  | cons x ss ih =>
      have hx : (take valid p x).malformed = (p.malformed || x.faulty valid) := by
        cases x with
        | directive name argument => exact malformed_directive valid name _ p
        | char c => exact (Bool.or_false _).symm
        | percent => exact (Bool.or_false _).symm
        | stray => exact (Bool.or_true _).symm
        | unclosed name argument => exact (Bool.or_true _).symm
      rw [List.foldl_cons, ih, hx, List.any_cons, Bool.or_assoc]

/-! ## The compiler -/

/-- Behind a letter that no brace follows, the compiler goes on as behind the directive. -/
theorem finish_foldl_letter (hcs : cs.head? ≠ some '\x7b') :
    finish valid (cs.foldl (step valid) (.letter name, p))
      = finish valid (cs.foldl (step valid) (.text, directive valid name "" p)) := by
  cases cs with
  | nil => exact (flush_directive valid name "" p).symm
  | cons c cs =>
      have hopen : c ≠ '\x7b' := fun h => hcs (congrArg some h)
      have hstep : step valid (.letter name, p) c
          = step valid (.text, directive valid name "" p) c := by
        simp [step, hopen]
      rw [List.foldl_cons, List.foldl_cons, hstep]

/-- Behind a stray percent sign the compiler goes on as behind the marker. -/
theorem finish_foldl_percent
    (hcs : ∀ c, cs.head? = some c → c ≠ '%' ∧ c.isAlpha = false) :
    finish valid (cs.foldl (step valid) (.percent, p))
      = finish valid (cs.foldl (step valid) (.text, p.mark strayMarker)) := by
  cases cs with
  | nil => exact (p.flush_mark strayMarker).symm
  | cons c cs =>
      obtain ⟨hpercent, hletter⟩ := hcs c rfl
      have hstep : step valid (.percent, p) c = step valid (.text, p.mark strayMarker) c := by
        simp [step, hpercent, hletter]
      rw [List.foldl_cons, List.foldl_cons, hstep]

theorem foldl_argument {as : List Char} (has : '\x7d' ∉ as) (reversed : List Char) :
    as.foldl (step valid) (.argument name reversed, p)
      = (.argument name (as.reverse ++ reversed), p) := by
  induction as generalizing reversed with
  | nil => rfl
  | cons a as ih =>
      have ha : a ≠ '\x7d' := fun h => has (h ▸ List.mem_cons_self)
      have hrest : '\x7d' ∉ as := fun h => has (List.mem_cons_of_mem a h)
      have hstep : step valid (.argument name reversed, p) a = (.argument name (a :: reversed), p) :=
        if_neg (by simpa using ha)
      rw [List.foldl_cons, hstep, ih hrest, List.reverse_cons, List.append_assoc]
      rfl

/-- The first two characters of a directive. -/
theorem foldl_name (hname : name.isAlpha) :
    ('%' :: name :: cs).foldl (step valid) (.text, p)
      = cs.foldl (step valid) (.letter name, p) := by
  have hpercent : name ≠ '%' := by
    rintro rfl
    revert hname
    decide
  have hstep : step valid (.percent, p) name = (.letter name, p) := by
    simp [step, hpercent, hname]
  rw [List.foldl_cons, List.foldl_cons]
  exact congrArg (cs.foldl (step valid)) hstep

/-- The compiler takes in one segment after the other, whatever they are. -/
theorem Splits.finish_foldl (h : Splits cs ss) (p : Progress) :
    finish valid (cs.foldl (step valid) (.text, p)) = (ss.foldl (take valid) p).flush := by
  induction h generalizing p with
  | nil => rfl
  | @char c cs ss hc _ ih =>
      have hstep : step valid (.text, p) c = (.text, p.push c) := if_neg (by simpa using hc)
      rw [List.foldl_cons, hstep, ih]
      rfl
  | percent _ ih => exact ih (p.push '%')
  | @bare name cs ss hname hcs _ ih =>
      rw [foldl_name hname, finish_foldl_letter hcs, ih]
      rfl
  | @argued name argument cs ss hname hargument _ ih =>
      have hstep : step valid (.argument name (argument.reverse ++ []), p) '\x7d'
          = (.text, directive valid name (String.ofList argument) p) := by
        simp [step]
      rw [foldl_name hname, List.foldl_cons]
      show finish valid ((argument ++ '\x7d' :: cs).foldl (step valid) (.argument name [], p)) = _
      rw [List.foldl_append, foldl_argument hargument, List.foldl_cons, hstep, ih]
      rfl
  | @stray cs ss hcs _ ih =>
      rw [List.foldl_cons]
      show finish valid (cs.foldl (step valid) (.percent, p)) = _
      rw [finish_foldl_percent hcs, ih]
      rfl
  | @unclosed name argument hname hargument =>
      rw [foldl_name hname, List.foldl_cons]
      show finish valid (argument.foldl (step valid) (.argument name [], p)) = _
      rw [foldl_argument hargument]
      exact (p.flush_mark openMarker).symm

/-- What a pattern is compiled to is told by its segments. -/
theorem Splits.compileWith_eq {source : String} (h : Splits source.toList ss) :
    compileWith valid source = {
      source, pieces := (ss.foldl (take valid) {}).flush.pieces.reverse
      malformed := ss.any (·.faulty valid) } := by
  have hmalformed : (ss.foldl (take valid) {}).flush.malformed = ss.any (·.faulty valid) := by
    rw [Progress.malformed_flush, malformed_foldl_take]
    exact Bool.false_or _
  rw [compileWith, h.finish_foldl, ← hmalformed]

end ConfigLog.Logging.Pattern
