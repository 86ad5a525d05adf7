import ConfigLog.Json.Number

set_option autoImplicit false

/-! # From JSON text to trees

`Json.read` reads a text that holds exactly one JSON value. Objects become mappings with string
keys; no key may occur twice in one object, and values nest less than 128 deep.
-/

namespace ConfigLog.Json

open Number

/-- The characters that may stand between tokens. -/
def isSpace (c : Char) : Bool := c == ' ' || c == '\t' || c == '\n' || c == '\r'

/-- The text without the spaces at its start. -/
def skipSpace (cs : List Char) : List Char := cs.dropWhile isSpace

/-! ## Strings -/

/-- Four hexadecimal digits. -/
def hexUnit (cs : List Char) : Option (Nat × List Char) := do
  if (cs.take 4).length < 4 then none
  return (← natOfDigits 16 (cs.take 4), cs.drop 4)

/-- A character written by its code in units of 16 bits, behind the first `\u`. -/
def unicodeEscape (cs : List Char) : Option (Char × List Char) := do
  let (u, r) ← hexUnit cs
  if 0xd800 ≤ u && u < 0xdc00 then
    match r with
    | '\\' :: 'u' :: r => do
      let (v, r) ← hexUnit r
      if 0xdc00 ≤ v && v < 0xe000 then
        return (Char.ofNat (0x10000 + (u - 0xd800) * 0x400 + (v - 0xdc00)), r)
      else none
    | _ => none
  else if 0xdc00 ≤ u && u < 0xe000 then none
  else return (Char.ofNat u, r)

/-- A character behind a backslash. -/
def escape : List Char → Option (Char × List Char)
  | '"' :: r => some ('"', r)
  | '\\' :: r => some ('\\', r)
  | '/' :: r => some ('/', r)
  | 'b' :: r => some ('\x08', r)
  | 'f' :: r => some ('\x0c', r)
  | 'n' :: r => some ('\n', r)
  | 'r' :: r => some ('\r', r)
  | 't' :: r => some ('\t', r)
  | 'u' :: r => unicodeEscape r
  | _ => none

/-- The characters up to the closing quote. -/
def stringBody : Nat → String → List Char → Option (String × List Char)
  | 0, _, _ => none
  | _, _, [] => none
  | fuel + 1, text, c :: r =>
    if c == '"' then some (text, r)
    else if c == '\\' then do
      let (ch, r) ← escape r
      stringBody fuel (text.push ch) r
    else if c.toNat < 0x20 then none
    else stringBody fuel (text.push c) r

/-- A string behind its opening quote. -/
def string (cs : List Char) : Option (String × List Char) := stringBody (cs.length + 1) "" cs

/-! ## Values -/

/-- The word at the start of a text. -/
def word (w : String) (n : Node) (cs : List Char) : Option (Node × List Char) :=
  if w.toList.isPrefixOf cs then some (n, cs.drop w.length) else none

/-- What follows an item: a comma, or the end of the collection. -/
def comma (close : Char) (cs : List Char) : Option (Bool × List Char) :=
  match skipSpace cs with
  | c :: r => if c == ',' then some (true, r) else if c == close then some (false, r) else none
  | [] => none

mutual

/-- A value and the text behind it; `depth` bounds how deep collections nest in it. -/
def value (depth : Nat) : Nat → List Char → Option (Node × List Char)
  | 0, _ => none
  | fuel + 1, cs =>
    match skipSpace cs with
    | [] => none
    | c :: r =>
      if c == '"' then do
        let (s, r) ← string r
        return (.string s, r)
      else if c == '[' then
        if depth == 0 then none
        else match skipSpace r with
          | ']' :: r => some (.sequence [], r)
          | r => do
            let (items, r) ← valueItems (depth - 1) fuel r
            return (.sequence items, r)
      else if c == '\x7b' then
        if depth == 0 then none
        else match skipSpace r with
          | '\x7d' :: r => some (.mapping [], r)
          | r => do
            let (entries, r) ← members (depth - 1) [] fuel r
            return (.mapping entries, r)
      else if c == 'n' then word "null" .null (c :: r)
      else if c == 't' then word "true" (.bool true) (c :: r)
      else if c == 'f' then word "false" (.bool false) (c :: r)
      else number (c :: r)

/-- The items of an array up to its end. -/
def valueItems (depth : Nat) : Nat → List Char → Option (List Node × List Char)
  | 0, _ => none
  | fuel + 1, cs => do
    let (item, r) ← value depth fuel cs
    let (more, r) ← comma ']' r
    if more then
      let (items, r) ← valueItems depth fuel r
      return (item :: items, r)
    else return ([item], r)

/-- The members of an object up to its end, each key once. -/
def members (depth : Nat) (done : List (Node × Node)) :
    Nat → List Char → Option (List (Node × Node) × List Char)
  | 0, _ => none
  | fuel + 1, cs =>
    match skipSpace cs with
    | '"' :: r => do
      let (s, r) ← string r
      let key := Node.string s
      if Node.hasKey key done then none
      let ':' :: r := skipSpace r | none
      let (v, r) ← value depth fuel r
      let (more, r) ← comma '\x7d' r
      if more then members depth ((key, v) :: done) fuel r
      else return (((key, v) :: done).reverse, r)
    | _ => none

end

/-- The tree of a JSON text. -/
def read (text : String) : Option Node := do
  let cs := text.toList
  let (n, rest) ← value 127 (2 * cs.length + 2) cs
  if (skipSpace rest).isEmpty then some n else none

end ConfigLog.Json
