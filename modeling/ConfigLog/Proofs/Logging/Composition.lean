import ConfigLog.Proofs.Logging.Segments

set_option autoImplicit false

/-! # Patterns side by side

The line for an event is made of what each segment of the pattern shows, faulty ones included
(`Splits.render_eq`). So the line of a pattern that is put together from two is made of theirs, unless
the first one ends with something that the second one would go on with (`Splits.append`).
-/

namespace ConfigLog.Logging.Pattern

/-! ## What a segment shows -/

/-- The piece of a directive with its argument; a faulty one is a marker. -/
def pieceOf (valid : String → Bool) (name : Char) (argument : String) : Piece :=
  if name == 'd' then
    let template := if argument == "" then defaultTemplate else argument
    if valid template then .time template else .literal (timeMarker template)
  else (simplePiece name).getD (.literal (unknownMarker name))

section

variable (valid : String → Bool) (times : TimeFormat) (logger : String) (level : Level) (e : Event)

/-- What a segment shows of an event. -/
def shown : Segment → String
  | .char c => c.toString
  | .percent => "%"
  | .directive name argument =>
    pieceText times logger level e (pieceOf valid name (String.ofList (argument.getD [])))
  | .stray => strayMarker
  | .unclosed .. => openMarker

/-- What has been compiled so far shows of an event. -/
def Progress.shown (p : Progress) : String :=
  String.join (p.pieces.reverse.map (pieceText times logger level e))
    ++ String.ofList p.literal.reverse

end

variable {valid : String → Bool} {times : TimeFormat} {logger : String} {level : Level}
  {e : Event} {cs ds : List Char} {ss ts : List Segment}

namespace Progress

/-- Finishing the literal at the end makes no difference to what is shown. -/
theorem shown_flush (p : Progress) :
    p.flush.shown times logger level e = p.shown times logger level e := by
  by_cases h : p.literal = []
  · rw [flush_of_literal_eq_nil h]
  · have hflush : p.flush = { p with
        pieces := .literal (String.ofList p.literal.reverse) :: p.pieces, literal := [] } :=
      if_neg (by simpa using h)
    rw [hflush]
    simp [shown, pieceText]

theorem shown_push (p : Progress) (c : Char) :
    (p.push c).shown times logger level e = p.shown times logger level e ++ c.toString := by
  rw [← String.toList_inj]
  simp [shown, push]

theorem shown_add (p : Progress) (piece : Piece) : (p.add piece).shown times logger level e
    = p.shown times logger level e ++ pieceText times logger level e piece := by
  rw [← p.shown_flush]
  simp [shown, add, p.literal_flush]

theorem shown_mark (p : Progress) (text : String) :
    (p.mark text).shown times logger level e = p.shown times logger level e ++ text :=
  p.shown_add (.literal text)

end Progress

theorem shown_directive (name : Char) (argument : String) (p : Progress) :
    (directive valid name argument p).shown times logger level e
      = p.shown times logger level e
        ++ pieceText times logger level e (pieceOf valid name argument) := by
  unfold directive pieceOf
  by_cases hname : (name == 'd') = true
  · rw [if_pos hname, if_pos hname]
    simp only
    generalize (if argument == "" then defaultTemplate else argument) = template
    cases valid template with
    | true => exact p.shown_add (.time template)
    | false => exact p.shown_mark (timeMarker template)
  · rw [if_neg hname, if_neg hname]
    cases simplePiece name with
    | none => exact p.shown_mark _
    | some piece => exact p.shown_add piece

theorem shown_take (p : Progress) (s : Segment) : (take valid p s).shown times logger level e
    = p.shown times logger level e ++ shown valid times logger level e s := by
  cases s with
  | char c => exact p.shown_push c
  | percent => exact p.shown_push '%'
  | directive name argument => exact shown_directive name _ p
  | stray => exact p.shown_mark strayMarker
  | unclosed name argument => exact p.shown_mark openMarker

theorem shown_foldl_take (ss : List Segment) (p : Progress) :
    (ss.foldl (take valid) p).shown times logger level e
      = p.shown times logger level e ++ String.join (ss.map (shown valid times logger level e)) := by
  induction ss generalizing p with
  | nil => simp
  | cons s ss ih => rw [List.foldl_cons, ih, shown_take, List.map_cons, String.join_cons,
      String.append_assoc]

/-- The line for an event is made of what the segments show, each in its own place. -/
theorem Splits.render_eq {source : String} (h : Splits source.toList ss) :
    (compileWith valid source).render times logger level e
      = String.join (ss.map (shown valid times logger level e)) := by
  have hshown : ((ss.foldl (take valid) {}).flush).shown times logger level e
      = String.join (ss.map (shown valid times logger level e)) := by
    rw [Progress.shown_flush, shown_foldl_take]
    exact String.empty_append
  rw [← hshown, h.compileWith_eq, render, Progress.shown, Progress.literal_flush]
  exact String.append_empty.symm

/-! ## Two patterns -/

/-- What follows the segment belongs to it. -/
def Segment.isOpen : Segment → Bool
  | stray | unclosed .. => true
  | char _ | percent | directive .. => false

/-- The first characters end with no segment that the second ones would go on with: neither with one
that is open, nor with a directive without argument when a brace follows that would give it one. -/
def Precedes (cs ds : List Char) : Prop :=
  ∃ ss, Splits cs ss ∧ ∀ s, ss.getLast? = some s →
    s.isOpen = false ∧ ∀ name, s = .directive name none → ds.head? ≠ some '\x7b'

theorem Splits.eq_nil (h : Splits [] ss) : ss = [] := by
  cases h
  rfl

/-- A segment with others behind it is not the last one. -/
theorem last_of_cons {P : Segment → Prop} {s : Segment}
    (h : ∀ t, (s :: ss).getLast? = some t → P t) : ∀ t, ss.getLast? = some t → P t := by
  intro t ht
  refine h t ?_
  rw [List.getLast?_cons, ht]
  rfl

/-- The segments of one text and then those of the other one. -/
theorem Splits.append (h : Splits cs ss) (h' : Splits ds ts)
    (hends : ∀ s, ss.getLast? = some s →
      s.isOpen = false ∧ ∀ name, s = .directive name none → ds.head? ≠ some '\x7b') :
    Splits (cs ++ ds) (ss ++ ts) := by
  induction h with
  | nil => exact h'
  | char hc _ ih => exact .char hc (ih (last_of_cons hends))
  | percent _ ih => exact .percent (ih (last_of_cons hends))
  | @bare name cs ss hname hcs hss ih =>
      refine .bare hname ?_ (ih (last_of_cons hends))
      cases cs with
      | nil =>
          -- the directive is the last segment, so what follows it is the second text
          obtain rfl := hss.eq_nil
          exact (hends _ rfl).2 name rfl
      | cons c cs => exact hcs
  | @argued name argument cs ss hname hargument _ ih =>
      have happ : '%' :: name :: '\x7b' :: (argument ++ '\x7d' :: cs) ++ ds
          = '%' :: name :: '\x7b' :: (argument ++ '\x7d' :: (cs ++ ds)) := by
        simp
      rw [happ]
      exact .argued hname hargument (ih (last_of_cons hends))
  | @stray cs ss hcs hss ih =>
      refine .stray ?_ (ih (last_of_cons hends))
      cases cs with
      | nil =>
          obtain rfl := hss.eq_nil
          have hopen := (hends .stray rfl).1
          cases hopen
      | cons c cs => exact hcs
  | @unclosed name argument _ _ =>
      have hopen := (hends (.unclosed name argument) rfl).1
      cases hopen

/-- The line of a pattern that is put together from two is made of theirs, and it has the flag when one
of them has it. A faulty segment shows its marker and changes nothing around it. -/
theorem render_append (valid : String → Bool) :
    (∀ p q : String, Precedes p.toList q.toList →
      (∀ times logger level e, (compileWith valid (p ++ q)).render times logger level e
        = (compileWith valid p).render times logger level e
          ++ (compileWith valid q).render times logger level e) ∧
      (compileWith valid (p ++ q)).malformed
        = ((compileWith valid p).malformed || (compileWith valid q).malformed)) ∧
    ∀ (source : String) (ss : List Segment), Splits source.toList ss →
      (∀ times logger level e, (compileWith valid source).render times logger level e
        = String.join (ss.map (shown valid times logger level e))) ∧
      (compileWith valid source).malformed = ss.any (·.faulty valid) := by
  refine ⟨fun p q hpq => ?_, fun source ss h => ⟨fun times logger level e => h.render_eq, ?_⟩⟩
  · obtain ⟨ss, hss, hends⟩ := hpq
    obtain ⟨ts, hts⟩ := exists_splits q.toList
    have hboth : Splits (p ++ q).toList (ss ++ ts) := by
      rw [String.toList_append]
      exact hss.append hts hends
    refine ⟨fun times logger level e => ?_, ?_⟩
    · rw [hboth.render_eq, hss.render_eq, hts.render_eq, List.map_append, String.join_append]
    · rw [hboth.compileWith_eq, hss.compileWith_eq, hts.compileWith_eq, List.any_append]
  · rw [h.compileWith_eq]

/-- A letter that is no directive, a stray percent sign and a template that is malformed, and behind
them a brace, a directive and a percent sign at the end. -/
theorem render_append_faulty :
    Precedes "%x 100% %d\x7b%Q\x7d".toList "\x7b%m%".toList ∧
    (compile .universal ("%x 100% %d\x7b%Q\x7d" ++ "\x7b%m%")).render .universal "root" .info
        { message := "hello" }
      = "<<error_format %x>> 100<<error_format %>> <<error_format %d\x7b%Q\x7d>>"
        ++ "\x7bhello<<error_format %>>" ∧
    (compile .universal ("%x 100% %d\x7b%Q\x7d" ++ "\x7b%m%")).malformed = true := by
  have hfirst : Splits "%x 100% %d\x7b%Q\x7d".toList [.directive 'x' none, .char ' ', .char '1',
      .char '0', .char '0', .stray, .char ' ', .directive 'd' (some ['%', 'Q'])] := by
    have hchars : "%x 100% %d\x7b%Q\x7d".toList = ['%', 'x', ' ', '1', '0', '0', '%', ' ', '%', 'd',
        '\x7b', '%', 'Q', '\x7d'] := by decide
    have hlast : Splits ['%', 'd', '\x7b', '%', 'Q', '\x7d'] [.directive 'd' (some ['%', 'Q'])] :=
      @Splits.argued 'd' ['%', 'Q'] [] [] (by decide) (by decide) .nil
    have hstray : ∀ c, ([' ', '%', 'd', '\x7b', '%', 'Q', '\x7d'] : List Char).head? = some c →
        c ≠ '%' ∧ c.isAlpha = false := by
      intro c hc
      obtain rfl := Option.some.inj hc
      decide
    rw [hchars]
    exact .bare (by decide) (by decide) (.char (by decide) (.char (by decide) (.char (by decide)
      (.char (by decide) (.stray hstray (.char (by decide) hlast))))))
  have hprecedes : Precedes "%x 100% %d\x7b%Q\x7d".toList "\x7b%m%".toList := by
    refine ⟨_, hfirst, fun s hs => ?_⟩
    obtain rfl := Option.some.inj hs
    refine ⟨rfl, fun name hname => ?_⟩
    cases hname
  obtain ⟨hline, hflag⟩ := (render_append TimeFormat.universal.valid).1 _ _ hprecedes
  refine ⟨hprecedes, ?_, ?_⟩
  · rw [compile, hline]
    decide
  · rw [compile, hflag]
    decide

end ConfigLog.Logging.Pattern
