import ConfigLog.Number.Decimal
import ConfigLog.Yaml.Cursor
import ConfigLog.Yaml.Token

set_option autoImplicit false

/-! # Tokens with content

Reading of the tokens that carry text: directives, anchors and aliases, tags, block scalars, quoted
scalars and plain scalars. Every reader starts at the first character of its token and gives `none`
when the text is not well formed.
-/

namespace ConfigLog.Yaml

open Number

/-! ## Directives -/

/-- One part of a version number: up to nine digits. -/
def versionPart (c : Cursor) : Option (Nat × Cursor) := do
  let (digits, c) := c.take Text.isDigit
  if digits.length > 9 then none
  return (← natOfDigits 10 digits, c)

/-- A tag handle: `!`, `!!` or `!name!`. Outside of a directive the second mark may be missing. -/
def tagHandle (directive : Bool) (c : Cursor) : Option (List Char × Cursor) :=
  match c.rest with
  | '!' :: _ =>
    let (word, c1) := (c.drop 1).take isWord
    match c1.rest with
    | '!' :: _ => some ('!' :: word ++ ['!'], c1.drop 1)
    | _ => if directive && !word.isEmpty then none else some ('!' :: word, c1)
  | _ => none

/-- A character of a tag. Between angle brackets a few more are allowed. -/
def isTagChar (verbatim : Bool) (c : Char) : Bool :=
  isWord c || ";/?:@&=+$.!~*'()".toList.contains c || (verbatim && ",[]".toList.contains c)

/-- One byte written as `%` and two hexadecimal digits. -/
def escapedByte : List Char → Option (Nat × List Char)
  | '%' :: a :: b :: r => do return (← natOfDigits 16 [a, b], r)
  | _ => none

/-- So many escaped bytes that continue a character. -/
def continuation : Nat → List Char → Option (Tag × List Char)
  | 0, cs => some ([], cs)
  | n + 1, cs => do
    let (b, r) ← escapedByte cs
    if b / 64 != 2 then none
    let (more, r) ← continuation n r
    return (b.toUInt8 :: more, r)

/-- The number of bytes that continue the character of a leading byte. -/
def continuationLength (b : Nat) : Option Nat :=
  if b < 0x80 then some 0
  else if b / 32 == 6 then some 1
  else if b / 16 == 14 then some 2
  else if b / 8 == 30 then some 3
  else none

/-- The escaped bytes of one character. There may be no character with these bytes. -/
def escapedChar (cs : List Char) : Option (Tag × List Char) := do
  let (b, r) ← escapedByte cs
  let (more, r) ← continuation (← continuationLength b) r
  return (b.toUInt8 :: more, r)

/-- The bytes of a tag, with escapes resolved. -/
def tagBytes (verbatim : Bool) : Nat → List Char → Option (Tag × List Char)
  | 0, cs => some ([], cs)
  | fuel + 1, cs =>
    match cs with
    | [] => some ([], [])
    | '%' :: _ => do
      let (bs, r) ← escapedChar cs
      let (more, r) ← tagBytes verbatim fuel r
      return (bs ++ more, r)
    | c :: r =>
      if isTagChar verbatim c then do
        let (more, r) ← tagBytes verbatim fuel r
        return (Tag.ofText c.toString ++ more, r)
      else some ([], c :: r)

/-- The bytes of a tag at the cursor. -/
def takeTag (verbatim : Bool) (c : Cursor) : Option (Tag × Cursor) := do
  let (bytes, rest) ← tagBytes verbatim c.rest.length c.rest
  return (bytes, c.moveTo rest)

/-- A directive line with the break that ends it. -/
def directive (c : Cursor) : Option (Token × Cursor) := do
  let (name, c) := (c.drop 1).take isWord
  if !gapFollows c.rest then none
  let c := c.skip isSpace
  let (token, c) ←
    if name == "YAML".toList then do
      let (major, c) ← versionPart c
      let '.' :: _ := c.rest | none
      let (minor, c) ← versionPart (c.drop 1)
      pure (Token.version major minor, c)
    else if name == "TAG".toList then do
      let (handle, c) ← tagHandle true c
      let s :: _ := c.rest | none
      if !isSpace s then none
      let (leading, c) ← takeTag true (c.skip isSpace)
      if leading.isEmpty || !gapFollows c.rest then none
      pure (Token.tagDirective (String.ofList handle) leading.beforeNull, c)
    else none
  let c := (c.skip isSpace).skipComment
  if lineEnds c.rest then some (token, c.takeBreak.2) else none

/-! ## Anchors and tags -/

/-- The name of an anchor or an alias. -/
def anchorName (c : Cursor) : Option (String × Cursor) :=
  let (name, c) := (c.drop 1).take isWord
  let ends := match c.rest with
    | [] => true
    | e :: _ => isGap e || "?:,]\x7d%@`".toList.contains e
  if name.isEmpty || !ends then none else some (String.ofList name, c)

/-- A tag: verbatim between angle brackets, behind a handle, or behind a single mark. -/
def tag (inFlow : Bool) (c : Cursor) : Option (Token × Cursor) := do
  let (token, c) ←
    match c.rest with
    | '!' :: '<' :: _ => do
      let (suffix, c) ← takeTag true (c.drop 2)
      let '>' :: _ := c.rest | none
      if suffix.isEmpty then none
      pure (Token.tag "" suffix.beforeNull, c.drop 1)
    | _ => do
      let (handle, c) ← tagHandle false c
      if handle.length ≥ 2 && handle.getLast? == some '!' then
        let (suffix, c) ← takeTag false c
        if suffix.isEmpty then none
        pure (Token.tag (String.ofList handle) suffix.beforeNull, c)
      else
        let (more, c) ← takeTag false c
        let suffix := Tag.beforeNull (Tag.ofText (String.ofList (handle.drop 1)) ++ more)
        if suffix.isEmpty then pure (Token.tag "" (Tag.ofText "!"), c)
        else pure (Token.tag "!" suffix, c)
  match c.rest with
  | ',' :: _ => if inFlow then some (token, c) else none
  | r => if gapFollows r then some (token, c) else none

/-! ## Gaps inside scalars -/

/-- What stands between two words of a scalar: spaces, or line breaks with the spaces around them
left out. -/
structure Gap where
  spaces : String := ""
  broken : Bool := false
  first : String := ""
  more : String := ""

/-- The text that a gap stands for: a single line feed becomes a space, and of several the first
one is left out. -/
def Gap.text (g : Gap) : String :=
  if !g.broken then g.spaces
  else if g.first == "\n" then (if g.more == "" then " " else g.more)
  else g.first ++ g.more

/-- Reads a gap. Behind a break, a tab may not stand before the given column. -/
def takeGap (indent : Int) : Nat → Gap → Cursor → Option (Gap × Cursor)
  | 0, g, c => some (g, c)
  | fuel + 1, g, c =>
    match c.rest with
    | [] => some (g, c)
    | s :: _ =>
      if isSpace s then
        if g.broken && s == '\t' && (c.column : Int) < indent then none
        else takeGap indent fuel (if g.broken then g else { g with spaces := g.spaces.push s })
          (c.drop 1)
      else if isBreak s then
        let (b, c) := c.takeBreak
        takeGap indent fuel
          (if g.broken then { g with more := g.more ++ b }
           else { g with spaces := "", broken := true, first := b }) c
      else some (g, c)

/-! ## Plain scalars -/

/-- A character that separates or encloses the parts of a flow collection. -/
def isFlowIndicator (c : Char) : Bool := ",[]\x7b\x7d".toList.contains c

/-- The next word of a plain scalar and the text behind it. -/
def plainWord (inFlow : Bool) : List Char → Option (List Char × List Char)
  | [] => some ([], [])
  | c :: r =>
    if isGap c then some ([], c :: r)
    else if c == ':' && gapFollows r then some ([], c :: r)
    else if inFlow && c == ':' && (r.head? == some '?' || r.head?.any isFlowIndicator) then none
    else if inFlow && isFlowIndicator c then some ([], c :: r)
    else do
      let (word, rest) ← plainWord inFlow r
      return (c :: word, rest)

/-- Reads words and gaps until the scalar ends; the gap that ends it is given as well. -/
def plainWords (inFlow : Bool) (indent : Int) :
    Nat → String → Gap → Cursor → Option (String × Gap × Cursor)
  | 0, text, g, c => some (text, g, c)
  | fuel + 1, text, g, c =>
    if c.atMarker '-' || c.atMarker '.' || c.rest.head? == some '#' then some (text, g, c)
    else do
      let (word, rest) ← plainWord inFlow c.rest
      let c := c.moveTo rest
      let (text, g) :=
        if word.isEmpty then (text, g) else (text ++ g.text ++ String.ofList word, {})
      match c.rest with
      | [] => some (text, g, c)
      | s :: _ =>
        if !isGap s then some (text, g, c)
        else
          let (g, c) ← takeGap indent c.rest.length g c
          if !inFlow && (c.column : Int) < indent then some (text, g, c)
          else plainWords inFlow indent fuel text g c

/-- A plain scalar, and whether a line break follows it. -/
def plainScalar (inFlow : Bool) (indent : Int) (c : Cursor) : Option (String × Bool × Cursor) := do
  let (text, g, c) ← plainWords inFlow indent (c.rest.length + 1) "" {} c
  return (text, g.broken, c)

/-! ## Quoted scalars -/

/-- The character of a one-letter escape. -/
def simpleEscape : Char → Option Char
  | '0' => some '\x00'
  | 'a' => some '\x07'
  | 'b' => some '\x08'
  | 't' => some '\t'
  | '\t' => some '\t'
  | 'n' => some '\n'
  | 'v' => some '\x0b'
  | 'f' => some '\x0c'
  | 'r' => some '\r'
  | 'e' => some '\x1b'
  | ' ' => some ' '
  | '"' => some '"'
  | '/' => some '/'
  | '\\' => some '\\'
  | 'N' => some '\u0085'
  | '_' => some '\u00a0'
  | 'L' => some '\u2028'
  | 'P' => some '\u2029'
  | _ => none

/-- How many hexadecimal digits follow an escape letter. -/
def codeLength : Char → Option Nat
  | 'x' => some 2
  | 'u' => some 4
  | 'U' => some 8
  | _ => none

/-- The character that an escape stands for, by what follows the backslash. -/
def escape : List Char → Option (Char × List Char)
  | [] => none
  | c :: r =>
    match codeLength c with
    | some n => do
      if (r.take n).length < n then none
      let code ← natOfDigits 16 (r.take n)
      if code.isValidChar then some (Char.ofNat code, r.drop n) else none
    | none => (simpleEscape c).map (·, r)

/-- Reads words and gaps up to the closing quote. -/
def quotedWords (single : Bool) : Nat → String → Cursor → Option (String × Cursor)
  | 0, _, _ => none
  | fuel + 1, text, c =>
    if c.atMarker '-' || c.atMarker '.' then none
    else
      match c.rest with
      | [] => none
      | '\'' :: r =>
        if !single then quotedWords single fuel (text.push '\'') (c.drop 1)
        else if r.head? == some '\'' then quotedWords single fuel (text.push '\'') (c.drop 2)
        else some (text, c.drop 1)
      | '"' :: _ =>
        if single then quotedWords single fuel (text.push '"') (c.drop 1) else some (text, c.drop 1)
      | '\\' :: r =>
        if single then quotedWords single fuel (text.push '\\') (c.drop 1)
        else if r.head?.any isBreak then do
          let (_, c) := (c.drop 1).takeBreak
          let (g, c) ← takeGap 0 c.rest.length { broken := true } c
          quotedWords single fuel (text ++ g.text) c
        else do
          let (ch, rest) ← escape r
          quotedWords single fuel (text.push ch) (c.moveTo rest)
      | ch :: _ =>
        if isGap ch then do
          let (g, c) ← takeGap 0 c.rest.length {} c
          quotedWords single fuel (text ++ g.text) c
        else quotedWords single fuel (text.push ch) (c.drop 1)

/-- A quoted scalar. -/
def quotedScalar (single : Bool) (c : Cursor) : Option (String × Cursor) :=
  quotedWords single (c.rest.length + 1) "" (c.drop 1)

/-! ## Block scalars -/

/-- What becomes of the line breaks at the end of a block scalar. -/
inductive Chomping where
  | strip
  | clip
  | keep
  deriving BEq

/-- Reads empty lines and indentation. Without a known indentation every space counts, and the
deepest column reached is given as well. -/
def blockBreaks (indent : Nat) : Nat → String → Nat → Cursor → Option (String × Nat × Cursor)
  | 0, breaks, deepest, c => some (breaks, deepest, c)
  | fuel + 1, breaks, deepest, c =>
    let spaces := (c.rest.takeWhile (· == ' ')).length
    let c := c.drop (if indent == 0 then spaces else min spaces (indent - c.column))
    let deepest := max deepest c.column
    match c.rest with
    | [] => some (breaks, deepest, c)
    | s :: _ =>
      if s == '\t' && (indent == 0 || c.column < indent) then none
      else if isBreak s then
        let (b, c) := c.takeBreak
        blockBreaks indent fuel (breaks ++ b) deepest c
      else some (breaks, deepest, c)

/-- A line break and the empty lines behind it, not yet part of the text. -/
structure Pending where
  first : String := ""
  more : String := ""
  /-- The line before the break started with a space. -/
  spaced : Bool := false

/-- Reads the lines of a block scalar of known indentation. -/
def blockLines (literal : Bool) (indent : Nat) :
    Nat → String → Pending → Cursor → Option (String × Pending × Cursor)
  | 0, text, p, c => some (text, p, c)
  | fuel + 1, text, p, c =>
    match c.rest with
    | [] => some (text, p, c)
    | s :: _ =>
      if c.column != indent then some (text, p, c)
      else do
        let spaced := isSpace s
        let joint :=
          if !literal && p.first == "\n" && !p.spaced && !spaced then
            (if p.more == "" then " " else p.more)
          else p.first ++ p.more
        let (line, c) := c.take (!isBreak ·)
        let (b, c) := c.takeBreak
        let (more, _, c) ← blockBreaks indent (c.rest.length + 1) "" 0 c
        blockLines literal indent fuel (text ++ joint ++ String.ofList line)
          { first := b, more, spaced } c

/-- The header of a block scalar behind its indicator: chomping and indentation, in either order. -/
def blockHeader (cs : List Char) : Option (Chomping × Nat × List Char) :=
  let chomping : List Char → Chomping × List Char
    | '+' :: r => (.keep, r)
    | '-' :: r => (.strip, r)
    | r => (.clip, r)
  let digit : List Char → Option (Nat × List Char)
    | d :: r =>
      if !Text.isDigit d then some (0, d :: r)
      else if d == '0' then none
      else some (Text.digitValue d, r)
    | [] => some (0, [])
  match chomping cs with
  | (.clip, r) => do
    let (n, r) ← digit r
    if n == 0 then some (.clip, 0, r)
    else
      let (ch, r) := chomping r
      some (ch, n, r)
  | (ch, r) => do
    let (n, r) ← digit r
    some (ch, n, r)

/-- A block scalar inside a collection of the given indentation. -/
def blockScalar (literal : Bool) (outer : Int) (c : Cursor) : Option (String × Cursor) := do
  let c := c.drop 1
  let (chomping, increment, rest) ← blockHeader c.rest
  let c := ((c.moveTo rest).skip isSpace).skipComment
  if !lineEnds c.rest then none
  let c := c.takeBreak.2
  let given : Nat :=
    if increment == 0 then 0 else if outer ≥ 0 then outer.toNat + increment else increment
  let (breaks, deepest, c) ← blockBreaks given (c.rest.length + 1) "" 0 c
  let indent := if given == 0 then max deepest (max (outer + 1).toNat 1) else given
  let (text, p, c) ← blockLines literal indent (c.rest.length + 1) "" { more := breaks } c
  return match chomping with
    | .strip => (text, c)
    | .clip => (text ++ p.first, c)
    | .keep => (text ++ p.first ++ p.more, c)

end ConfigLog.Yaml
