import ConfigLog.Yaml.Cursor
import ConfigLog.Yaml.Scalar

set_option autoImplicit false

/-! # Ways of writing a scalar

A scalar is written plain, in single or double quotes, or as a literal block. `Style.wanted` says
what the kind of the scalar asks for, `Traits` what its characters allow, and `Style.chosen` what
comes of the two.
-/

namespace ConfigLog.Yaml

/-- The ways of writing a scalar. -/
inductive Style where
  | plain
  | single
  | double
  | literal
  deriving BEq, DecidableEq, Repr

/-- A character that may be written as it is. -/
def isWritable (c : Char) : Bool :=
  let n := c.toNat
  n == 0xa || (0x20 ≤ n && n ≤ 0x7e) || (0xa0 ≤ n && n != 0xfeff && n != 0xfffe && n != 0xffff)

/-- Two neighbours of the given classes occur in this order. -/
def hasPair (p q : Char → Bool) : List Char → Bool
  | a :: b :: r => (p a && q b) || hasPair p q (b :: r)
  | _ => false

/-- The end of a text, a space, a tab, a line break or NUL. -/
def gapOrNulFollows : List Char → Bool
  | [] => true
  | c :: _ => isGap c || c == '\x00'

/-- Behind the first character, a colon before a gap or a number sign behind one. -/
def hasInnerIndicator : List Char → Bool
  | a :: b :: r =>
    (b == ':' && gapOrNulFollows r) || (b == '#' && (isGap a || a == '\x00'))
      || hasInnerIndicator (b :: r)
  | _ => false

/-- At the start of a plain scalar, these characters would be taken for something else. -/
def startsWithIndicator : List Char → Bool
  | '-' :: '-' :: '-' :: _ => true
  | '.' :: '.' :: '.' :: _ => true
  | [] => false
  | c :: r =>
    "#,[]\x7b\x7d&*!|>'\"%@`".toList.contains c
      || ((c == '?' || c == ':' || c == '-') && gapOrNulFollows r)

/-- What the characters of a text allow. -/
structure Traits where
  multiline : Bool
  plain : Bool
  single : Bool
  block : Bool

/-- The traits of a text. -/
def Traits.of (cs : List Char) : Traits :=
  let space := fun c => c == ' '
  let edge := fun c => space c || isBreak c
  let spaceBreak := hasPair space isBreak cs
  let breakSpace := hasPair isBreak space cs
  let special := cs.any (!isWritable ·)
  let multiline := cs.any isBreak
  let clean := !spaceBreak && !special
  { multiline
    plain := clean && !breakSpace && !multiline && !(cs.head?.any edge) && !(cs.getLast?.any edge)
      && !startsWithIndicator cs && !hasInnerIndicator cs
    single := clean && !breakSpace
    block := clean && !cs.isEmpty && !(cs.getLast?.any space) }

/-- What a string asks for. -/
def Style.wanted (s : String) : Style :=
  if s.toList.contains '\n' then .literal
  else if needsQuotes s then .single
  else .plain

/-- The style that a text gets when it asks for one. As a key that must fit on one line it cannot
be a block. -/
def Style.chosen (wanted : Style) (simpleKey : Bool) (cs : List Char) : Style :=
  let t := Traits.of cs
  let quoted := if t.single then Style.single else .double
  if simpleKey && t.multiline then .double
  else match wanted with
    | .plain => if !t.plain || (cs.isEmpty && simpleKey) then quoted else .plain
    | .single => quoted
    | .double => .double
    | .literal => if t.block && !simpleKey then .literal else .double

/-! ## Escapes -/

/-- Upper-case hexadecimal digits, padded with zeros to a width. -/
def paddedHex (width n : Nat) : List Char :=
  let digits := (Nat.toDigits 16 n).map Char.toUpper
  List.replicate (width - digits.length) '0' ++ digits

/-- The escape of a character between double quotes, without its backslash. -/
def escapeName (c : Char) : List Char :=
  match c with
  | '\x00' => ['0']
  | '\x07' => ['a']
  | '\x08' => ['b']
  | '\t' => ['t']
  | '\n' => ['n']
  | '\x0b' => ['v']
  | '\x0c' => ['f']
  | '\r' => ['r']
  | '\x1b' => ['e']
  | '"' => ['"']
  | '\\' => ['\\']
  | '\u0085' => ['N']
  | '\u00a0' => ['_']
  | '\u2028' => ['L']
  | '\u2029' => ['P']
  | _ =>
    let n := c.toNat
    if n ≤ 0xff then 'x' :: paddedHex 2 n
    else if n ≤ 0xffff then 'u' :: paddedHex 4 n
    else 'U' :: paddedHex 8 n

/-- A character between double quotes. -/
def doubleQuoted (c : Char) : List Char :=
  if !isWritable c || isBreak c || c == '"' || c == '\\' then '\\' :: escapeName c else [c]

/-! ## Tags -/

/-- A character that needs no escape in a tag. -/
def isPlainInTag (c : Char) : Bool := isWord c || ";/?:@&=+$,_.~*'()[]".toList.contains c

/-- The bytes of a character, each as `%` and two hexadecimal digits. -/
def escapedBytes (c : Char) : List Char :=
  c.toString.toUTF8.toList.flatMap fun b => '%' :: paddedHex 2 b.toNat

/-- The text of a tag with escapes. -/
def escapedTag (cs : List Char) : List Char :=
  cs.flatMap fun c => if isPlainInTag c then [c] else escapedBytes c

/-- The tag of a name: the name behind an exclamation mark, unless it starts with one itself. It
ends at a null character. -/
def markedTag (name : String) : List Char :=
  (if name.startsWith "!" then name.toList else '!' :: name.toList).takeWhile (· != '\x00')

/-- The written form of the tag of a name. A mark alone has to be written between angle brackets. -/
def tagText (name : String) : List Char :=
  match markedTag name with
  | ['!'] => "!<".toList ++ escapedTag ['!'] ++ ['>']
  | cs => '!' :: escapedTag cs.tail

/-- The number of bytes that a tag counts for in a key. -/
def tagSize (name : String) : Nat := (String.ofList (markedTag name)).utf8ByteSize

end ConfigLog.Yaml
