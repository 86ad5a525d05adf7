import ConfigLog.Yaml.Token

set_option autoImplicit false

/-! # YAML terms

The structure of a YAML document before anchors and scalars are given their meaning, and how it is
read from tokens. Tags are written out in full. Each anchored node opens a numbered slot: the
number of distinct anchor names in use before it. An alias refers to the slot that its name opened
last, and stands for the node that opened this slot last.
-/

namespace ConfigLog.Yaml

/-- A document, with aliases by slot and tags in full. -/
inductive Term where
  | alias (slot : Nat)
  | scalar (tag : Option Tag) (text : String) (plain : Bool)
  | sequence (tag : Option Tag) (items : List Term)
  | mapping (tag : Option Tag) (entries : List (Term × Term))
  deriving Inhabited

mutual

/-- The size of a term: one for a scalar or an alias, two for a collection besides its parts. -/
def Term.size : Term → Nat
  | .alias _ => 1
  | .scalar .. => 1
  | .sequence _ items => sizeItems items + 2
  | .mapping _ entries => sizeEntries entries + 2

/-- The size of the items together. -/
def Term.sizeItems : List Term → Nat
  | [] => 0
  | t :: r => t.size + sizeItems r

/-- The size of keys and values together. -/
def Term.sizeEntries : List (Term × Term) → Nat
  | [] => 0
  | (k, v) :: r => k.size + v.size + sizeEntries r

end

/-! ## Anchors -/

/-- The anchors met so far. -/
structure Anchors where
  /-- The slot that each name opened last. -/
  names : List (String × Nat) := []
  /-- The number of the node that opened each slot last. -/
  owners : List (Nat × Nat) := []
  /-- How many anchored nodes there are. -/
  count : Nat := 0
  /-- The anchored nodes that are complete, by number. -/
  bodies : List (Nat × Term) := []

namespace Anchors

/-- Opens a slot for a name; the second result is the number of the node. -/
def opened (a : Anchors) (name : String) : Anchors × Nat :=
  let slot := a.names.length
  ({ a with
      names := (name, slot) :: a.names.filter (·.1 != name)
      owners := (slot, a.count) :: a.owners
      count := a.count + 1 }, a.count)

/-- The anchors with a completed node. -/
def completed (a : Anchors) (node : Option Nat) (body : Term) : Anchors :=
  match node with
  | none => a
  | some n => { a with bodies := (n, body) :: a.bodies }

/-- The node that a slot stands for. -/
def body (a : Anchors) (slot : Nat) : Option Term := do
  a.bodies.lookup (← a.owners.lookup slot)

end Anchors

/-! ## Reading -/

/-- What is left to read, and what has been learnt. -/
structure Reader where
  tokens : List Token
  anchors : Anchors := {}
  /-- The leading parts that tag handles stand for. -/
  handles : List (String × Tag)

/-- A step that reads some tokens or fails. -/
abbrev Read := StateT Reader Option

namespace Read

/-- The next token. -/
def peek : Read (Option Token) := return (← get).tokens.head?

/-- Leaves out the next token. -/
def next : Read Unit := modify fun r => { r with tokens := r.tokens.tail }

/-- The next token is one of the given ones. -/
def nextIsOneOf (ts : List Token) : Read Bool := return (← peek).any ts.contains

/-- Leaves out the next token if it is the given one. -/
def accept (t : Token) : Read Bool := do
  if (← peek) == some t then
    next
    return true
  else return false

/-- Leaves out the next token, which has to be the given one. -/
def expect (t : Token) : Read Unit := do
  if !(← accept t) then failure

/-- The tag that a handle and a suffix stand for. -/
def fullTag (handle : String) (suffix : Tag) : Read Tag := do
  if handle == "" then return suffix
  let some leading := (← get).handles.lookup handle | failure
  return leading ++ suffix

/-- An anchor, if there is one: the number of the node. -/
def anchor : Read (Option Nat) := do
  let some (.anchor name) ← peek | return none
  next
  modifyGet fun r =>
    let (anchors, n) := r.anchors.opened name
    (some n, { r with anchors })

/-- A tag, if there is one. -/
def tag : Read (Option Tag) := do
  let some (.tag handle suffix) ← peek | return none
  next
  some <$> fullTag handle suffix

/-- An anchor and a tag, in either order, each of them optional. -/
def properties : Read (Option Nat × Option Tag) := do
  match ← anchor with
  | some n => return (some n, ← tag)
  | none =>
    let t ← tag
    return (← anchor, t)

/-- A scalar that is not written at all. -/
def empty : Term := .scalar none "" true

mutual

/-- A node. Block collections may be left out of account, and a sequence may be allowed to stand
without indentation of its own. -/
def node (block indentless : Bool) : Nat → Read Term
  | 0 => failure
  | fuel + 1 => do
    if let some (.alias name) ← peek then
      next
      let some slot := (← get).anchors.names.lookup name | failure
      return .alias slot
    let (number, tag) ← properties
    let term ← match ← peek with
      | some .blockEntry =>
        if indentless then pure (.sequence tag (← indentlessItems fuel))
        else bare number tag
      | some (.scalar text plain) => do
        next
        pure (.scalar tag text plain)
      | some .flowSequenceStart => do
        next
        pure (.sequence tag (← flowItems true fuel))
      | some .flowMappingStart => do
        next
        pure (.mapping tag (← flowEntries true fuel))
      | some .blockSequenceStart =>
        if block then do
          next
          pure (.sequence tag (← blockItems fuel))
        else bare number tag
      | some .blockMappingStart =>
        if block then do
          next
          pure (.mapping tag (← blockEntries fuel))
        else bare number tag
      | _ => bare number tag
    modify fun r => { r with anchors := r.anchors.completed number term }
    return term

/-- A node that consists of its properties alone. -/
def bare (number : Option Nat) (tag : Option Tag) : Read Term :=
  if number.isNone && tag.isNone then failure else pure (.scalar tag "" true)

/-- A node, or an empty scalar before one of the given tokens. -/
def nodeUnless (ends : List Token) (block indentless : Bool) : Nat → Read Term
  | 0 => failure
  | fuel + 1 => do
    if ← nextIsOneOf ends then return empty
    node block indentless fuel

/-- The items of a block sequence. -/
def blockItems : Nat → Read (List Term)
  | 0 => failure
  | fuel + 1 => do
    if ← accept .blockEntry then
      let item ← nodeUnless [.blockEntry, .blockEnd] true false fuel
      return item :: (← blockItems fuel)
    expect .blockEnd
    return []

/-- The items of a block sequence that is not indented. -/
def indentlessItems : Nat → Read (List Term)
  | 0 => failure
  | fuel + 1 => do
    if ← accept .blockEntry then
      let item ← nodeUnless [.blockEntry, .key, .value, .blockEnd] true false fuel
      return item :: (← indentlessItems fuel)
    return []

/-- The entries of a block mapping. -/
def blockEntries : Nat → Read (List (Term × Term))
  | 0 => failure
  | fuel + 1 => do
    if ← accept .key then
      let ends := [.key, .value, .blockEnd]
      let key ← nodeUnless ends true true fuel
      let value ← if ← accept .value then nodeUnless ends true true fuel else pure empty
      return (key, value) :: (← blockEntries fuel)
    expect .blockEnd
    return []

/-- The items of a flow sequence. A key makes an item of its own, a mapping with one entry. -/
def flowItems (first : Bool) : Nat → Read (List Term)
  | 0 => failure
  | fuel + 1 => do
    if ← accept .flowSequenceEnd then return []
    if !first then expect .flowEntry
    if ← accept .key then
      let key ← if ← nextIsOneOf [.value, .flowEntry, .flowSequenceEnd] then do
          next
          pure empty
        else node false false fuel
      let value ← if ← accept .value then
          nodeUnless [.flowEntry, .flowSequenceEnd] false false fuel
        else pure empty
      return .mapping none [(key, value)] :: (← flowItems false fuel)
    if ← accept .flowSequenceEnd then return []
    let item ← node false false fuel
    return item :: (← flowItems false fuel)

/-- The entries of a flow mapping. -/
def flowEntries (first : Bool) : Nat → Read (List (Term × Term))
  | 0 => failure
  | fuel + 1 => do
    if ← accept .flowMappingEnd then return []
    if !first then expect .flowEntry
    if ← accept .key then
      let key ← nodeUnless [.value, .flowEntry, .flowMappingEnd] false false fuel
      let value ← if ← accept .value then
          nodeUnless [.flowEntry, .flowMappingEnd] false false fuel
        else pure empty
      return (key, value) :: (← flowEntries false fuel)
    if ← accept .flowMappingEnd then return []
    let key ← node false false fuel
    return (key, empty) :: (← flowEntries false fuel)

end

/-! ## Documents -/

/-- The tag handles that need no directive. -/
def defaultHandles : List (String × Tag) :=
  [("!", .ofText "!"), ("!!", .ofText "tag:yaml.org,2002:")]

/-- The directives before a document; `named` are the handles they have defined so far. -/
def directives (version : Bool) (named : List String) : Nat → Read Bool
  | 0 => failure
  | fuel + 1 => do
    match ← peek with
    | some (.version major minor) =>
      if version || major != 1 || (minor != 1 && minor != 2) then failure
      next
      directives true named fuel
    | some (.tagDirective handle leading) =>
      if named.contains handle then failure
      next
      modify fun r => { r with handles := (handle, leading) :: r.handles }
      directives version (handle :: named) fuel
    | _ => return version || !named.isEmpty

/-- The content of a document that is marked by its start. -/
def contentOrEmpty (fuel : Nat) : Read Term := do
  match ← peek with
  | none => return empty
  | some (.version ..) => return empty
  | some (.tagDirective ..) => return empty
  | some .documentStart => return empty
  | some .documentEnd => return empty
  | some _ => node true false fuel

/-- Leaves out all markers of a document's end. -/
def skipEnds : Read Unit :=
  modify fun r => { r with tokens := r.tokens.dropWhile (· == .documentEnd) }

/-- The only document of a text; none when there are no tokens. -/
def document (fuel : Nat) : Read (Option Term) := do
  if (← peek).isNone then return none
  let directed ← directives false [] fuel
  let term ←
    if ← accept .documentStart then contentOrEmpty fuel
    else if directed then failure
    else node true false fuel
  skipEnds
  if (← peek).isSome then failure
  return some term

end Read

/-- The document that tokens make, with its anchors. -/
def Term.ofTokens? (tokens : List Token) : Option (Option Term × Anchors) := do
  let (term, r) ←
    (Read.document (3 * tokens.length + 10)).run { tokens, handles := Read.defaultHandles }
  return (term, r.anchors)

end ConfigLog.Yaml
