set_option autoImplicit false

/-! # Positions in YAML text

Character classes of YAML text, and a cursor that knows the line and the column of what it points
at. Line breaks are read through `Cursor.takeBreak`, which gives each break its normal form.
-/

namespace ConfigLog.Yaml

/-! ## Character classes -/

/-- The characters that may occur in YAML text at all. -/
def isAllowed (c : Char) : Bool :=
  let n := c.toNat
  n == 9 || n == 0xa || n == 0xd || (0x20 ≤ n && n ≤ 0x7e) || n == 0x85
    || (0xa0 ≤ n && n ≤ 0xd7ff) || (0xe000 ≤ n && n ≤ 0xfffd) || 0x10000 ≤ n

/-- A line break. -/
def isBreak (c : Char) : Bool :=
  c == '\n' || c == '\r' || c == '\u0085' || c == '\u2028' || c == '\u2029'

/-- A space or a tab. -/
def isSpace (c : Char) : Bool := c == ' ' || c == '\t'

/-- A character that separates tokens. -/
def isGap (c : Char) : Bool := isSpace c || isBreak c

/-- A character of an anchor, a tag handle or a directive name. -/
def isWord (c : Char) : Bool := c.isAlphanum || c == '_' || c == '-'

/-- The text ends here or goes on with a space, a tab or a line break. -/
def gapFollows : List Char → Bool
  | [] => true
  | c :: _ => isGap c

/-- The line ends here. -/
def lineEnds : List Char → Bool
  | [] => true
  | c :: _ => isBreak c

/-- A document marker: three times the character, and then a gap. -/
def markerFollows (c : Char) : List Char → Bool
  | c1 :: c2 :: c3 :: r => c1 == c && c2 == c && c3 == c && gapFollows r
  | _ => false

/-! ## The cursor -/

/-- The number of bytes that characters take. -/
def byteCount (cs : List Char) : Nat := cs.foldr (fun c n => c.utf8Size + n) 0

/-- The rest of a text and where it starts. -/
structure Cursor where
  rest : List Char
  /-- The number of bytes before the rest. -/
  index : Nat
  line : Nat
  column : Nat

namespace Cursor

/-- The start of a text. -/
def start (cs : List Char) : Cursor := ⟨cs, 0, 0, 0⟩

/-- The cursor some characters further on the same line. -/
def drop (c : Cursor) (n : Nat) : Cursor :=
  { c with
    rest := c.rest.drop n
    index := c.index + byteCount (c.rest.take n)
    column := c.column + n }

/-- The cursor at a later place of the same line, given by the text from there on. -/
def moveTo (c : Cursor) (rest : List Char) : Cursor := c.drop (c.rest.length - rest.length)

/-- The cursor behind the characters of a class, which holds no line break. -/
def skip (c : Cursor) (p : Char → Bool) : Cursor := c.moveTo (c.rest.dropWhile p)

/-- The characters of a class, which holds no line break, and the cursor behind them. -/
def take (c : Cursor) (p : Char → Bool) : List Char × Cursor := (c.rest.takeWhile p, c.skip p)

/-- The next line break in its normal form, and the cursor behind it. A carriage return, a line
feed, the two together and U+0085 all become one line feed. -/
def takeBreak (c : Cursor) : String × Cursor :=
  match c.rest with
  | '\r' :: '\n' :: r => ("\n", ⟨r, c.index + 2, c.line + 1, 0⟩)
  | b :: r =>
    if isBreak b then
      (if b == '\u2028' || b == '\u2029' then b.toString else "\n",
        ⟨r, c.index + b.utf8Size, c.line + 1, 0⟩)
    else ("", c)
  | [] => ("", c)

/-- The cursor is at a document marker made of the character. -/
def atMarker (c : Cursor) (m : Char) : Bool := c.column == 0 && markerFollows m c.rest

/-- The cursor behind a comment, which reaches to the end of the line. -/
def skipComment (c : Cursor) : Cursor :=
  match c.rest with
  | '#' :: _ => c.skip (!isBreak ·)
  | _ => c

end Cursor

end ConfigLog.Yaml
