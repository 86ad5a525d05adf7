import ConfigLog.Yaml.Scalar
import ConfigLog.Yaml.Term
import ConfigLog.Yaml.Token.Scan

set_option autoImplicit false

/-! # From YAML text to trees

`Yaml.read` is the whole way from text to a tree: tokens, a term, and then the meaning of scalars
and aliases. A mapping must not have the same key twice. Two limits keep documents from growing
without bound: collections nest at most 128 deep, and a document may use aliases at most a hundred
times as often as it has parts.
-/

namespace ConfigLog.Yaml

/-- How deep collections may nest. -/
def depthLimit : Nat := 128

/-- A step that counts the aliases used, or fails. -/
abbrev Expand := StateT Nat Option

/-- The term itself, or the one that an alias stands for. -/
def deref (anchors : Anchors) (limit : Nat) : Term → Expand Term
  | .alias slot => do
    modify (· + 1)
    if (← get) > limit then failure
    match anchors.body slot with
    | some body => return body
    | none => failure
  | t => return t

/-- The node with a local tag around it; any other tag of a collection means nothing. -/
def withTag (tag : Option Tag) (node : Node) : Node :=
  match tag.bind Tag.localName? with
  | some name => .tagged name node
  | none => node

/-- The entries of a mapping from its terms, each key once. -/
def expandEntries (expand : Term → Expand Node) :
    List (Node × Node) → List (Term × Term) → Expand (List (Node × Node))
  | done, [] => return done.reverse
  | done, (k, v) :: r => do
    let key ← expand k
    if Node.hasKey key done then failure
    let value ← expand v
    expandEntries expand ((key, value) :: done) r

/-- The node that a term means, at most so many collections deep. -/
def expand (anchors : Anchors) (limit : Nat) : Nat → Term → Expand Node
  | depth, t => do
    match ← deref anchors limit t with
    | .alias _ => failure
    | .scalar tag text plain => StateT.lift (scalarNode tag text plain)
    | .sequence tag items =>
      match depth with
      | 0 => failure
      | depth + 1 => return withTag tag (.sequence (← items.mapM (expand anchors limit depth)))
    | .mapping tag entries =>
      match depth with
      | 0 => failure
      | depth + 1 =>
        return withTag tag (.mapping (← expandEntries (expand anchors limit depth) [] entries))

/-- The tree of a YAML text with at most one document; `none` when the text is not well formed. -/
def read (text : String) : Option Node := do
  let tokens ← Token.scan text
  match ← Term.ofTokens? tokens with
  | (none, _) => return .null
  | (some term, anchors) => (expand anchors (100 * term.size) depthLimit term).run' 0

end ConfigLog.Yaml
