import ConfigLog.Toml.Scalar
import ConfigLog.Toml.Table

set_option autoImplicit false

/-! # From TOML text to trees

`Toml.read` reads a document line by line: headers open tables and keys add values to the table
that was opened last. Tables become mappings in the order of their keys.
-/

namespace ConfigLog.Toml

/-! ## Blank text -/

/-- A comment up to the end of its line; none when it holds a control character. -/
def comment : List Char → Option (List Char)
  | '#' :: r =>
    let rest := r.dropWhile isText
    if rest.isEmpty || (lineBreak? rest).isSome then some rest else none
  | r => some r

/-- The end of a line: spaces, a comment and a line break or the end of the text. -/
def lineEnd (cs : List Char) : Option (List Char) := do
  let r ← comment (cs.dropWhile isSpace)
  if r.isEmpty then some [] else lineBreak? r

/-- Spaces, comments and line breaks between the parts of a value. -/
def skipBlank : Nat → List Char → Option (List Char)
  | 0, cs => some cs
  | fuel + 1, cs => do
    let r ← comment (cs.dropWhile isSpace)
    match lineBreak? r with
    | some r => skipBlank fuel r
    | none => some r

/-- The same for a whole text. -/
def skip (cs : List Char) : Option (List Char) := skipBlank cs.length cs

/-! ## Keys -/

/-- How many parts a key may have. -/
def keyLimit : Nat := 80

/-- One part of a key: bare or a string on one line. -/
def simpleKey (cs : List Char) : Option (String × List Char) :=
  match cs with
  | '"' :: r => lineString '"' (r.length + 1) "" r
  | '\'' :: r => lineString '\'' (r.length + 1) "" r
  | cs =>
    let word := cs.takeWhile isBare
    if word.isEmpty then none else some (String.ofList word, cs.dropWhile isBare)

/-- A key with its dots: all parts but the last, and the last. -/
def dottedKey : Nat → List Char → Option ((List String × String) × List Char)
  | 0, _ => none
  | fuel + 1, cs => do
    let (part, r) ← simpleKey (cs.dropWhile isSpace)
    match r.dropWhile isSpace with
    | '.' :: r => do
      let ((path, last), r) ← dottedKey fuel r
      return ((part :: path, last), r)
    | r => return (([], part), r)

/-- A key with its dots that has not too many parts. -/
def key (cs : List Char) : Option ((List String × String) × List Char) := do
  let ((path, last), r) ← dottedKey cs.length cs
  if keyLimit ≤ path.length then none else return ((path, last), r)

/-! ## Values -/

mutual

/-- A value and the text behind it; `depth` bounds how deep collections nest in it. -/
def value (depth : Nat) : Nat → List Char → Option (Node × List Char)
  | 0, _ => none
  | fuel + 1, cs =>
    match cs with
    | '[' :: r =>
      if depth == 0 then none
      else do
        let (items, r) ← arrayItems (depth - 1) fuel r
        return (.sequence items, r)
    | '\x7b' :: r =>
      if depth == 0 then none
      else do
        let (t, r) ← inlineEntries (depth - 1) .root fuel r
        return (t.toNode, r)
    | '"' :: _ => do
      let (s, r) ← string cs
      return (.string s, r)
    | '\'' :: _ => do
      let (s, r) ← string cs
      return (.string s, r)
    | cs => bareScalar cs

/-- The items of an array up to its end. -/
def arrayItems (depth : Nat) : Nat → List Char → Option (List Node × List Char)
  | 0, _ => none
  | fuel + 1, cs => do
    match ← skip cs with
    | ']' :: r => return ([], r)
    | r => do
      let (item, r) ← value depth fuel r
      match ← skip r with
      | ',' :: r => do
        let (items, r) ← arrayItems depth fuel r
        return (item :: items, r)
      | ']' :: r => return ([item], r)
      | _ => none

/-- The entries of an inline table up to its end. Its lines may break anywhere but inside a key. -/
def inlineEntries (depth : Nat) (t : Table) : Nat → List Char → Option (Table × List Char)
  | 0, _ => none
  | fuel + 1, cs => do
    match ← skip cs with
    | '\x7d' :: r => return (t, r)
    | r => do
      let ((path, last), r) ← key r
      let '=' :: r := ← skip r | none
      let (v, r) ← value depth fuel (← skip r)
      let t ← t.addDotted path last v
      match ← skip r with
      | ',' :: r => inlineEntries depth t fuel r
      | '\x7d' :: r => return (t, r)
      | _ => none

end

/-- How deep collections nest in a value. -/
def depthLimit : Nat := 80

/-! ## Documents -/

/-- The document so far and the path of the table that was opened last. -/
structure Progress where
  root : Table
  current : List String

/-- A header of a table or of an element of an array of tables. -/
def header (p : Progress) (cs : List Char) : Option (Progress × List Char) := do
  let (element, r) := match cs with
    | '[' :: r => (true, r)
    | r => (false, r)
  let ((path, last), r) ← key r
  let r ← match r with
    | ']' :: r => if element then (match r with | ']' :: r => some r | _ => none) else some r
    | _ => none
  let root ← p.root.descend false
    (if element then Table.openElement last else Table.openTable last) path
  return (⟨root, path ++ [last]⟩, ← lineEnd r)

/-- A key with its value. -/
def assignment (p : Progress) (cs : List Char) : Option (Progress × List Char) := do
  let ((path, last), r) ← key cs
  let '=' :: r := r | none
  let (v, r) ← value depthLimit (2 * r.length + 2) (r.dropWhile isSpace)
  let root ← p.root.descend false (Table.addDotted path last v) p.current
  return ({ p with root }, ← lineEnd r)

/-- Reads the lines of a document. -/
def lines : Nat → Progress → List Char → Option Progress
  | 0, _, _ => none
  | fuel + 1, p, cs => do
    match ← skip cs with
    | [] => return p
    | '[' :: r => do
      let (p, r) ← header p r
      lines fuel p r
    | r => do
      let (p, r) ← assignment p r
      lines fuel p r

/-- The text without a byte order mark at its start. -/
def dropMark : List Char → List Char
  | '\ufeff' :: r => r
  | cs => cs

/-- The tree of a TOML text. -/
def read (text : String) : Option Node := do
  let cs := dropMark text.toList
  return (← lines (cs.length + 1) ⟨.root, []⟩ cs).root.toNode

end ConfigLog.Toml
