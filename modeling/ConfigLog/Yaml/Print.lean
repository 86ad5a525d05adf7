import ConfigLog.Yaml.Print.Scalar

set_option autoImplicit false

/-! # From trees to YAML text

`Yaml.print` writes a tree in block style: an entry or an item a line, two more spaces a level, and
a sequence inside a mapping no deeper than the mapping. Empty collections are written by their
brackets. Two kinds of trees have no written form: a tag directly inside a tag, and a mapping
without a tag whose only key has a tag or is itself a mapping of one entry. The start of a mapping
of one entry is held back until its key is seen, and such a key takes its place.
-/

namespace ConfigLog.Yaml

/-! ## The text so far -/

/-- The text so far and where it ends. -/
structure Output where
  text : String := ""
  column : Nat := 0
  /-- A token may follow without a space. -/
  spaced : Bool := true
  /-- Only indentation and indicators of block collections stand on the line. -/
  fresh : Bool := true

namespace Output

/-- Characters of one line at the end. -/
def put (o : Output) (cs : List Char) : Output :=
  { o with text := o.text ++ String.ofList cs, column := o.column + cs.length }

/-- A line break at the end. -/
def putBreak (o : Output) (c : Char) : Output := { o with text := o.text.push c, column := 0 }

/-- The start of a line with the given indentation, on the present line if that will do. -/
def indentTo (o : Output) (indent : Nat) : Output :=
  let o :=
    if !o.fresh || o.column > indent || (o.column == indent && !o.spaced) then o.putBreak '\n'
    else o
  { o.put (List.replicate (indent - o.column) ' ') with spaced := true, fresh := true }

/-- A space where a token needs one. -/
def space (o : Output) : Output := if o.spaced then o else o.put [' ']

/-- An indicator of a block collection, which needs a space before and behind it. -/
def blockIndicator (o : Output) (c : Char) : Output := { o.space.put [c] with spaced := false }

/-- A token that ends the part of the line where only indentation stands. -/
def token (o : Output) (cs : List Char) : Output :=
  { o.put cs with spaced := false, fresh := false }

/-! ## Scalars -/

/-- The text between single quotes. Behind line breaks the next line is indented. -/
def singleQuoted (indent : Nat) : Bool → List Char → Output → Output
  | broken, [], o => if broken then o.indentTo indent else o
  | broken, c :: r, o =>
    if isBreak c then
      let o := if !broken && c == '\n' then o.putBreak '\n' else o
      singleQuoted indent true r { o.putBreak c with fresh := true }
    else if c == ' ' then singleQuoted indent broken r (o.put [c])
    else
      let o := if broken then o.indentTo indent else o
      singleQuoted indent false r
        { o.put (if c == '\'' then ['\'', '\''] else [c]) with fresh := false }

/-- The lines of a literal block. -/
def literalLines (indent : Nat) : Bool → List Char → Output → Output
  | _, [], o => o
  | broken, c :: r, o =>
    if isBreak c then literalLines indent true r { o.putBreak c with fresh := true }
    else
      let o := if broken then o.indentTo indent else o
      literalLines indent false r { o.put [c] with fresh := false }

/-- The header of a literal block: its indentation when the text starts with a gap, and what to do
with the line breaks at its end. -/
def literalHeader (cs : List Char) : List Char :=
  let hint := if cs.head?.any fun c => c == ' ' || isBreak c then ['2'] else []
  let chomp := match cs.reverse with
    | [] => ['-']
    | [c] => if isBreak c then ['+'] else ['-']
    | c :: d :: _ => if !isBreak c then ['-'] else if isBreak d then ['+'] else []
  '|' :: hint ++ chomp

/-- A scalar of the given style; `indent` is that of lines inside of it. -/
def scalar (o : Output) (style : Style) (indent : Nat) (cs : List Char) : Output :=
  match style with
  | .plain => (if cs.isEmpty then o else o.space).token cs
  | .single => (singleQuoted indent false cs (o.space.token ['\''])).token ['\'']
  | .double => (o.space.token ('"' :: cs.flatMap doubleQuoted ++ ['"']))
  | .literal =>
    let o := (o.space.token (literalHeader cs)).putBreak '\n'
    literalLines indent true cs { o with spaced := true, fresh := true }

/-- A tag. -/
def tag (o : Output) : Option String → Output
  | none => o
  | some name => o.space.token (tagText name)

end Output

/-! ## Nodes -/

/-- The text and the wanted style of a scalar. -/
def scalarText : Node → Option (String × Style)
  | .null => some ("null", .plain)
  | .bool b => some (if b then "true" else "false", .plain)
  | .integer i => some (String.ofList (Number.intText i), .plain)
  | .real x => some (x.leaf, .plain)
  | .string s => some (s, .wanted s)
  | _ => none

/-- A key that is written on the line of its value: a scalar of one line or an empty collection, of
at most 128 bytes. -/
def isSimpleKey : Node → Bool
  | .tagged name content =>
    match content with
    | .sequence items => items.isEmpty && tagSize name ≤ 128
    | .mapping entries => entries.isEmpty && tagSize name ≤ 128
    | node =>
      match scalarText node with
      | some (s, _) => !s.toList.any isBreak && tagSize name + s.utf8ByteSize ≤ 128
      | none => false
  | .sequence items => items.isEmpty
  | .mapping entries => entries.isEmpty
  | node =>
    match scalarText node with
    | some (s, _) => !s.toList.any isBreak && s.utf8ByteSize ≤ 128
    | none => false

/-- The place of a node in the text. -/
structure Place where
  /-- The indentation of the enclosing collection; none outside of all. -/
  indent : Option Nat
  /-- The node is a key or a value of a mapping. -/
  inMapping : Bool
  /-- The node is a key on the line of its value. -/
  simpleKey : Bool

/-- The indentation of what is inside a node. -/
def Place.inner (p : Place) : Nat :=
  match p.indent with
  | none => 0
  | some n => n + 2

/-- The indentation of the later lines of a scalar. -/
def Place.scalarIndent (p : Place) : Nat :=
  match p.indent with
  | none => 2
  | some n => n + 2

/-- A node that cannot be the only key of a mapping without a tag: one with a tag, or a mapping of
one entry. -/
def cannotStandAlone : Node → Bool
  | .tagged .. => true
  | .mapping entries => entries.length == 1
  | _ => false

mutual

/-- A node with the tag that stands before it. -/
def writeNode (p : Place) (tag : Option String) : Node → Output → Option Output
  | .tagged name content, o =>
    if tag.isSome then none else writeNode p (some name) content o
  | .sequence items, o =>
    let o := o.tag tag
    if items.isEmpty then some (o.space.token ['[', ']'])
    else
      let indent := if p.inMapping && !o.fresh then p.indent.getD 0 else p.inner
      writeItems indent items o
  | .mapping entries, o =>
    let o := o.tag tag
    if entries.isEmpty then some (o.space.token ['\x7b', '\x7d'])
    else if tag.isNone && entries.length == 1 && entries.any (cannotStandAlone ·.1) then none
    else writeEntries p.inner entries o
  | .null, o => some (writeScalar p tag "null" .plain o)
  | .bool b, o => some (writeScalar p tag (if b then "true" else "false") .plain o)
  | .integer i, o => some (writeScalar p tag (String.ofList (Number.intText i)) .plain o)
  | .real x, o => some (writeScalar p tag x.leaf .plain o)
  | .string s, o => some (writeScalar p tag s (.wanted s) o)

/-- A scalar with the tag that stands before it. -/
def writeScalar (p : Place) (tag : Option String) (s : String) (wanted : Style) (o : Output) :
    Output :=
  (o.tag tag).scalar (wanted.chosen p.simpleKey s.toList) p.scalarIndent s.toList

/-- The items of a sequence, a line each. -/
def writeItems (indent : Nat) : List Node → Output → Option Output
  | [], o => some o
  | item :: r, o => do
    let o := (o.indentTo indent).blockIndicator '-'
    writeItems indent r (← writeNode ⟨some indent, false, false⟩ none item o)

/-- The entries of a mapping, a line each. -/
def writeEntries (indent : Nat) : List (Node × Node) → Output → Option Output
  | [], o => some o
  | (key, value) :: r, o => do
    let o := o.indentTo indent
    let o ←
      if isSimpleKey key then do
        let o ← writeNode ⟨some indent, true, true⟩ none key o
        pure (o.token [':'])
      else do
        let o ← writeNode ⟨some indent, true, false⟩ none key (o.blockIndicator '?')
        pure ((o.indentTo indent).blockIndicator ':')
    writeEntries indent r (← writeNode ⟨some indent, true, false⟩ none value o)

end

/-- The YAML text of a tree, if it has one. -/
def print (n : Node) : Option String := do
  let o ← writeNode ⟨none, false, false⟩ none n {}
  return (o.indentTo 0).text

end ConfigLog.Yaml
