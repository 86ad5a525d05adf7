import ConfigLog.Text.Quoted
import ConfigLog.Tree.Text

set_option autoImplicit false

/-! # Trees in log records

A tree on one line with the kinds of its parts, for messages about documents.
-/

namespace ConfigLog.Node

/-- Texts with commas between them. -/
def commaSeparated (parts : List String) : String := ", ".intercalate parts

mutual

/-- The tree on one line. -/
def display : Node → String
  | null => "Null"
  | bool b => "Bool(" ++ (if b then "true" else "false") ++ ")"
  | integer i => "Number(" ++ (integer i).toText ++ ")"
  | real x => "Number(" ++ x.leaf ++ ")"
  | string s => "String(" ++ Text.quote s ++ ")"
  | sequence items => "Sequence [" ++ commaSeparated (displayItems items) ++ "]"
  | mapping entries => "Mapping \x7b" ++ commaSeparated (displayEntries entries) ++ "\x7d"
  | tagged tag content =>
    "TaggedValue \x7b tag: !" ++ tag ++ ", value: " ++ content.display ++ " \x7d"

/-- The items, each on one line. -/
def displayItems : List Node → List String
  | [] => []
  | n :: r => n.display :: displayItems r

/-- The entries, each on one line. Scalar keys stand without their kind. -/
def displayEntries : List (Node × Node) → List String
  | [] => []
  | (k, v) :: r =>
    let key := match k with
      | bool b => if b then "true" else "false"
      | integer i => (integer i).toText
      | real x => x.leaf
      | string s => Text.quote s
      | other => other.display
    (key ++ ": " ++ v.display) :: displayEntries r

end

end ConfigLog.Node
