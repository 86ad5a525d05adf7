import ConfigLog.Yaml.Token.Lexeme

set_option autoImplicit false

/-! # From YAML text to tokens

`Token.scan` cuts a text into tokens. Two things need memory. The indentation of the open block
collections says when one starts or ends. And a key is only known as such by the colon behind it,
so the scanner remembers where a key may have started and puts the missing tokens there afterwards.
A key without an explicit mark has to fit on one line and within 1024 bytes.
-/

namespace ConfigLog.Yaml

/-- A place where a key may have started. -/
structure PossibleKey where
  /-- The number of tokens before the key. -/
  token : Nat
  index : Nat
  line : Nat
  column : Nat
  /-- At this place only a key is well formed. -/
  required : Bool

/-- The state between two tokens. -/
structure Scanner where
  cursor : Cursor
  tokens : Array Token
  /-- The indentation of the innermost block collection, or `-1` outside of all. -/
  indent : Int
  /-- The indentations of the enclosing block collections. -/
  outerIndents : List Int
  /-- A key may start at the next token. -/
  keyAllowed : Bool
  /-- Where the key of the innermost collection may have started. -/
  key : Option PossibleKey
  /-- The same for the collections around it, one for each open flow collection. -/
  outerKeys : List (Option PossibleKey)

namespace Scanner

/-- The state before a text. -/
def start (cs : List Char) : Scanner := ⟨.start cs, #[], -1, [], true, none, []⟩

/-- The next token lies inside a flow collection. -/
def inFlow (s : Scanner) : Bool := !s.outerKeys.isEmpty

/-- One more token at the end. -/
def emit (s : Scanner) (t : Token) : Scanner := { s with tokens := s.tokens.push t }

/-- The cursor moved over some characters of the line. -/
def drop (s : Scanner) (n : Nat) : Scanner := { s with cursor := s.cursor.drop n }

/-! ## Indentation -/

/-- Opens a block collection at a column when that is deeper than the innermost one. The opening
token goes before the token of the given number. -/
def openBlock (s : Scanner) (column : Nat) (position : Nat) (t : Token) : Scanner :=
  if !s.inFlow && s.indent < column then
    { s with
      outerIndents := s.indent :: s.outerIndents
      indent := column
      tokens := s.tokens.insertIdxIfInBounds position t }
  else s

/-- Closes the block collections that are indented deeper than the column. -/
def closeBlocks (column : Int) : List Int → Scanner → Scanner
  | [], s => s
  | outer :: more, s =>
    if s.indent > column then
      closeBlocks column more { s.emit .blockEnd with indent := outer, outerIndents := more }
    else s

/-- Closes what a token at the column ends; inside a flow collection indentation means nothing. -/
def dedent (s : Scanner) (column : Int) : Scanner :=
  if s.inFlow then s else closeBlocks column s.outerIndents s

/-! ## Possible keys -/

/-- Forgets the possible key of the innermost collection; a required one must not be lost. -/
def forgetKey (s : Scanner) : Option Scanner :=
  if s.key.any (·.required) then none else some { s with key := none }

/-- Remembers the current place as the possible start of a key. -/
def saveKey (s : Scanner) : Option Scanner :=
  if !s.keyAllowed then some s
  else do
    let required := !s.inFlow && s.indent == (s.cursor.column : Int)
    let s ← s.forgetKey
    let c := s.cursor
    return { s with key := some ⟨s.tokens.size, c.index, c.line, c.column, required⟩ }

/-- A key that can no longer be one here is forgotten; this fails for a required key. -/
def PossibleKey.refresh (c : Cursor) : Option PossibleKey → Option (Option PossibleKey)
  | none => some none
  | some k =>
    if k.line < c.line || k.index + 1024 < c.index then (if k.required then none else some none)
    else some (some k)

/-- Forgets the possible keys that are too far away from the cursor. -/
def refreshKeys (s : Scanner) : Option Scanner := do
  return { s with
    key := ← PossibleKey.refresh s.cursor s.key
    outerKeys := ← s.outerKeys.mapM (PossibleKey.refresh s.cursor) }

/-! ## Between tokens -/

/-- Moves over spaces, comments and line breaks. A tab counts as space only where no key may
start. -/
def skipToToken : Nat → Scanner → Scanner
  | 0, s => s
  | fuel + 1, s =>
    let c := s.cursor
    let c := if c.column == 0 && c.rest.head? == some '\ufeff' then c.drop 1 else c
    let tabs := s.inFlow || !s.keyAllowed
    let c := (c.skip fun ch => ch == ' ' || (tabs && ch == '\t')).skipComment
    let s := { s with cursor := c }
    match c.rest with
    | [] => s
    | ch :: _ =>
      if isBreak ch then
        skipToToken fuel { s with
          cursor := c.takeBreak.2
          keyAllowed := s.keyAllowed || !s.inFlow }
      else s

/-! ## Tokens -/

/-- A token that ends all open block collections. -/
def atMargin (s : Scanner) : Option Scanner := do
  return { ← (s.dedent (-1)).forgetKey with keyAllowed := false }

/-- A document marker. -/
def marker (s : Scanner) (t : Token) : Option Scanner := do
  return ((← s.atMargin).emit t).drop 3

/-- The start of a flow collection, which may itself be a key. -/
def openFlow (s : Scanner) (t : Token) : Option Scanner := do
  let s ← s.saveKey
  let s := { s with outerKeys := s.key :: s.outerKeys, key := none, keyAllowed := true }
  return (s.emit t).drop 1

/-- The end of a flow collection. -/
def closeFlow (s : Scanner) (t : Token) : Option Scanner := do
  let s ← s.forgetKey
  let s := match s.outerKeys with
    | [] => s
    | k :: more => { s with key := k, outerKeys := more }
  return ({ s with keyAllowed := false }.emit t).drop 1

/-- A comma. -/
def flowEntry (s : Scanner) : Option Scanner := do
  return ({ ← s.forgetKey with keyAllowed := true }.emit .flowEntry).drop 1

/-- The start of a block collection by an explicit indicator, where one may stand. -/
def indicated (s : Scanner) (t : Token) : Option Scanner :=
  if s.inFlow then some s
  else if !s.keyAllowed then none
  else some (s.openBlock s.cursor.column s.tokens.size t)

/-- The dash of a block sequence. -/
def blockEntry (s : Scanner) : Option Scanner := do
  let s ← s.indicated .blockSequenceStart
  return ({ ← s.forgetKey with keyAllowed := true }.emit .blockEntry).drop 1

/-- A question mark. -/
def explicitKey (s : Scanner) : Option Scanner := do
  let s ← s.indicated .blockMappingStart
  return ({ ← s.forgetKey with keyAllowed := !s.inFlow }.emit .key).drop 1

/-- A colon. When a key may have started before, it did. -/
def value (s : Scanner) : Option Scanner := do
  let s ← match s.key with
    | some k =>
      let s := { s with tokens := s.tokens.insertIdxIfInBounds k.token .key }
      let s := s.openBlock k.column k.token .blockMappingStart
      some { s with key := none, keyAllowed := false }
    | none => do
      let s ← s.indicated .blockMappingStart
      some { s with keyAllowed := !s.inFlow }
  return (s.emit .value).drop 1

/-- A token that may be a key, with no key directly behind it. -/
def content (s : Scanner) (read : Cursor → Option (Token × Cursor)) : Option Scanner := do
  let s ← s.saveKey
  let (t, cursor) ← read s.cursor
  return { s with keyAllowed := false, cursor }.emit t

/-- A block scalar. -/
def block (s : Scanner) (literal : Bool) : Option Scanner := do
  let s ← s.forgetKey
  let (text, cursor) ← blockScalar literal s.indent s.cursor
  return { s with keyAllowed := true, cursor }.emit (.scalar text false)

/-- A quoted scalar. -/
def quoted (s : Scanner) (single : Bool) : Option Scanner :=
  s.content fun c => do
    let (text, c) ← quotedScalar single c
    return (.scalar text false, c)

/-- A plain scalar. Behind a line break at its end a key may start. -/
def plain (s : Scanner) : Option Scanner := do
  let s ← s.saveKey
  let (text, keyAllowed, cursor) ← plainScalar s.inFlow (s.indent + 1) s.cursor
  return { s with keyAllowed, cursor }.emit (.scalar text true)

/-- An alias or an anchor. -/
def anchorLike (s : Scanner) (make : String → Token) : Option Scanner :=
  s.content fun c => do
    let (name, c) ← anchorName c
    return (make name, c)

/-- A plain scalar may start with this character. -/
def startsPlain (inFlow : Bool) (c : Char) (r : List Char) : Bool :=
  if c == '-' then !(r.head?.any isSpace)
  else if c == '?' || c == ':' then !inFlow && !gapFollows r
  else !(isGap c || ",[]\x7b\x7d#&*!|>'\"%@`".toList.contains c)

/-- The token at the cursor. -/
def token (s : Scanner) (c : Char) (r : List Char) : Option Scanner :=
  let flow := s.inFlow
  if s.cursor.column == 0 && c == '%' then do
    let s ← s.atMargin
    let (t, cursor) ← directive s.cursor
    return { s with cursor }.emit t
  else if s.cursor.atMarker '-' then s.marker .documentStart
  else if s.cursor.atMarker '.' then s.marker .documentEnd
  else if c == '[' then s.openFlow .flowSequenceStart
  else if c == '\x7b' then s.openFlow .flowMappingStart
  else if c == ']' then s.closeFlow .flowSequenceEnd
  else if c == '\x7d' then s.closeFlow .flowMappingEnd
  else if c == ',' then s.flowEntry
  else if c == '-' && gapFollows r then s.blockEntry
  else if c == '?' && (flow || gapFollows r) then s.explicitKey
  else if c == ':' && (flow || gapFollows r) then s.value
  else if c == '*' then s.anchorLike .alias
  else if c == '&' then s.anchorLike .anchor
  else if c == '!' then s.content (tag flow)
  else if c == '|' && !flow then s.block true
  else if c == '>' && !flow then s.block false
  else if c == '\'' then s.quoted true
  else if c == '"' then s.quoted false
  else if startsPlain flow c r then s.plain
  else none

/-- All tokens up to the end of the text. -/
def run : Nat → Scanner → Option Scanner
  | 0, _ => none
  | fuel + 1, s => do
    let s ← (skipToToken (s.cursor.rest.length + 1) s).refreshKeys
    let s := s.dedent s.cursor.column
    match s.cursor.rest with
    | [] => s.atMargin
    | c :: r => run fuel (← s.token c r)

end Scanner

/-- The tokens of a text, or `none` when it is not made of YAML tokens. -/
def Token.scan (text : String) : Option (List Token) := do
  let cs := text.toList
  if !cs.all isAllowed then none
  return (← Scanner.run (cs.length + 2) (.start cs)).tokens.toList

end ConfigLog.Yaml
