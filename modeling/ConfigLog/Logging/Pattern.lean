import ConfigLog.Calendar.Template
import ConfigLog.Logging.Error
import ConfigLog.Logging.Event
import ConfigLog.Logging.Level

set_option autoImplicit false

/-! # Log patterns

A pattern says what a line of a log looks like: text with directives, each a percent sign and a
letter. Compiling never fails. A malformed directive leaves a marker in the line and sets the
`malformed` flag, and nobody installs a pattern with that flag. Which time templates are valid, and
what they make of a moment, depends on the `TimeFormat`.
-/

namespace ConfigLog.Logging

/-- A part of a compiled pattern. -/
inductive Piece where
  | literal (text : String)
  | message
  | level
  | elapsed
  | loggerName
  | threadId
  | lineBreak
  | time (template : String)
  | file
  | line
  | tab
  | taskId
  | threadName
  deriving DecidableEq, Repr

/-- A compiled pattern. -/
structure Pattern where
  /-- The text it was compiled from. -/
  source : String
  pieces : List Piece
  malformed : Bool
  deriving DecidableEq, Repr

/-- The template of a time directive without an argument. -/
def Pattern.defaultTemplate : String := "%Y-%m-%d %H:%M:%S"

/-- How moments are written by templates, in the time zone that the program runs in. -/
structure TimeFormat where
  /-- The templates that can be used. -/
  valid : String → Bool
  render : String → Calendar.Moment → String
  valid_default : valid Pattern.defaultTemplate = true

/-- The writing of moments in universal time. -/
def TimeFormat.universal : TimeFormat where
  valid := Calendar.Template.isValid
  render := Calendar.Template.render
  valid_default := by decide

namespace Pattern

/-- The pattern of a logger that was never given one. -/
def defaultSource : String :=
  "%d\x7b%Y-%m-%d %H:%M:%S\x7d%T%t%T%N%T%F%T[%p]%T[%c]%T%f:%l%T%m%n"

/-! ## Compiling -/

/-- Where in a pattern the next character stands. -/
inductive Place where
  | text
  /-- Behind a percent sign. -/
  | percent
  /-- Behind the letter of a directive. -/
  | letter (name : Char)
  /-- Inside the argument of a directive, with its characters so far in reverse. -/
  | argument (name : Char) (reversed : List Char)
  deriving DecidableEq, Repr

/-- What has been compiled so far. -/
structure Progress where
  /-- The finished pieces in reverse. -/
  pieces : List Piece := []
  /-- The characters of the literal at the end, in reverse. -/
  literal : List Char := []
  malformed : Bool := false
  deriving DecidableEq, Repr

namespace Progress

/-- Finishes the literal at the end. -/
def flush (p : Progress) : Progress :=
  if p.literal.isEmpty then p
  else { p with
    pieces := .literal (String.ofList p.literal.reverse) :: p.pieces
    literal := [] }

/-- One more character of literal text. -/
def push (p : Progress) (c : Char) : Progress := { p with literal := c :: p.literal }

/-- One more piece. -/
def add (p : Progress) (piece : Piece) : Progress :=
  { p.flush with pieces := piece :: p.flush.pieces }

/-- A marker for a malformed directive. -/
def mark (p : Progress) (text : String) : Progress :=
  { p.add (.literal text) with malformed := true }

end Progress

/-- The marker of a percent sign that starts no directive. -/
def strayMarker : String := "<<error_format %>>"

/-- The marker of a letter that is no directive. -/
def unknownMarker (name : Char) : String := "<<error_format %" ++ name.toString ++ ">>"

/-- The marker of a time template that is malformed. -/
def timeMarker (template : String) : String := "<<error_format %d\x7b" ++ template ++ "\x7d>>"

/-- The marker of an argument that does not end. -/
def openMarker : String := "<<pattern_error>>"

/-- The piece of a directive that takes no account of its argument. -/
def simplePiece : Char → Option Piece
  | 'm' => some .message
  | 'p' => some .level
  | 'r' => some .elapsed
  | 'c' => some .loggerName
  | 't' => some .threadId
  | 'n' => some .lineBreak
  | 'f' => some .file
  | 'l' => some .line
  | 'T' => some .tab
  | 'F' => some .taskId
  | 'N' => some .threadName
  | _ => none

section

variable (valid : String → Bool)

/-- A directive with its argument. -/
def directive (name : Char) (argument : String) (p : Progress) : Progress :=
  if name == 'd' then
    let template := if argument == "" then defaultTemplate else argument
    if valid template then p.add (.time template)
    else p.mark (timeMarker template)
  else match simplePiece name with
    | some piece => p.add piece
    | none => p.mark (unknownMarker name)

/-- Takes in one character. -/
def step : Place × Progress → Char → Place × Progress
  | (.text, p), c => if c == '%' then (.percent, p) else (.text, p.push c)
  | (.percent, p), c =>
    if c == '%' then (.text, p.push '%')
    else if c.isAlpha then (.letter c, p)
    else (.text, (p.mark strayMarker).push c)
  | (.letter name, p), c =>
    if c == '\x7b' then (.argument name [], p)
    else if c == '%' then (.percent, directive valid name "" p)
    else (.text, (directive valid name "" p).push c)
  | (.argument name reversed, p), c =>
    if c == '\x7d' then (.text, directive valid name (String.ofList reversed.reverse) p)
    else (.argument name (c :: reversed), p)

/-- Takes in the end of the pattern. -/
def finish : Place × Progress → Progress
  | (.text, p) => p.flush
  | (.percent, p) => p.mark strayMarker
  | (.letter name, p) => directive valid name "" p
  | (.argument .., p) => p.mark openMarker

/-- The compiled form of a pattern. -/
def compileWith (source : String) : Pattern :=
  let p := finish valid (source.toList.foldl (step valid) (.text, {}))
  { source, pieces := p.pieces.reverse, malformed := p.malformed }

/-- The compiled form of a pattern that is well formed. -/
def parseWith (source : String) : Except LogError Pattern :=
  let p := compileWith valid source
  if p.malformed then .error (.malformedPattern source) else .ok p

end

/-- The compiled form of a pattern. -/
def compile (times : TimeFormat) (source : String) : Pattern := compileWith times.valid source

/-- The compiled form of a pattern that is well formed. -/
def parse (times : TimeFormat) (source : String) : Except LogError Pattern :=
  parseWith times.valid source

/-- The pattern of a logger that was never given one. -/
def default : Pattern where
  source := defaultSource
  pieces := [.time defaultTemplate, .tab, .threadId, .tab, .threadName, .tab, .taskId, .tab,
    .literal "[", .level, .literal "]", .tab, .literal "[", .loggerName, .literal "]", .tab,
    .file, .literal ":", .line, .tab, .message, .lineBreak]
  malformed := false

theorem compile_defaultSource (times : TimeFormat) : compile times defaultSource = default := by
  have htime : "%d\x7b%Y-%m-%d %H:%M:%S\x7d".toList.foldl (step times.valid) (.text, {})
      = (.text, { pieces := [.time defaultTemplate] }) := by
    show (Place.text, directive times.valid 'd' defaultTemplate {}) = _
    have hvalid : times.valid (if defaultTemplate == "" then defaultTemplate else defaultTemplate)
        = true := by
      rw [ite_self]
      exact times.valid_default
    exact congrArg (Prod.mk Place.text) (if_pos hvalid)
  have hsplit : defaultSource.toList = "%d\x7b%Y-%m-%d %H:%M:%S\x7d".toList
      ++ "%T%t%T%N%T%F%T[%p]%T[%c]%T%f:%l%T%m%n".toList := by decide
  rw [compile, compileWith, hsplit, List.foldl_append, htime]
  rfl

instance : Inhabited Pattern := ⟨default⟩

/-! ## Rendering -/

/-- The text of a piece for an event. -/
def pieceText (times : TimeFormat) (logger : String) (level : Level) (e : Event) : Piece → String
  | .literal text => text
  | .message => e.message
  | .level => level.name
  | .elapsed => String.ofList (Number.natText e.elapsed)
  | .loggerName => logger
  | .threadId => String.ofList (Number.natText e.threadId)
  | .lineBreak => "\n"
  | .time template => times.render template e.time
  | .file => e.file
  | .line => String.ofList (Number.natText e.line)
  | .tab => "\t"
  | .taskId => String.ofList (Number.natText e.taskId)
  | .threadName => e.threadName

/-- The line for an event. -/
def render (p : Pattern) (times : TimeFormat) (logger : String) (level : Level) (e : Event) :
    String :=
  String.join (p.pieces.map (pieceText times logger level e))

/-- The line shows how long the program has been running. -/
def isTimed (p : Pattern) : Bool := p.pieces.contains .elapsed

end Pattern

end ConfigLog.Logging
