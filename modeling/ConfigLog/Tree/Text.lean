import ConfigLog.Text.Blank
import ConfigLog.Yaml.Print
import ConfigLog.Yaml.Read

set_option autoImplicit false

/-! # Trees as text

Scalars are written bare, collections and tagged nodes in YAML; blank text is null and all other
text is read as YAML.
-/

namespace ConfigLog.Node

/-- The text of a scalar by itself. -/
def scalarText? : Node → Option String
  | null => some ""
  | bool b => some (if b then "true" else "false")
  | integer i => some (String.ofList (Number.intText i))
  | real x => some x.leaf
  | string s => some s
  | _ => none

/-- The text of a tree. A tree that has no written form has an empty text. -/
def toText (n : Node) : String :=
  match n.scalarText? with
  | some s => s
  | none => (Yaml.print n).getD ""

/-- The tree of a text, or `none` when it is not well formed. -/
def ofText? (text : String) : Option Node :=
  if Text.isBlankText text then some .null else Yaml.read text

end ConfigLog.Node
