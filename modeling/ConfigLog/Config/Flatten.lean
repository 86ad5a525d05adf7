import ConfigLog.Config.Name
import ConfigLog.Tree.Text

set_option autoImplicit false

/-! # Documents as lists of settings

`findings` walks the mappings of a document from the root. Each entry whose path is a name is a
setting; a path that is no name and a key that is no scalar are passed over with all below them.
`flatten` and `invalidPaths` pick the settings and the invalid paths out of the findings.
-/

namespace ConfigLog.Config

/-- What the walk comes across. -/
inductive Finding where
  /-- A node with the name that its keys make. -/
  | setting (name : String) (node : Node)
  /-- A path that is no name. -/
  | invalid (path : String)
  /-- A key that has no text, below a path. -/
  | unnamed (path : String) (key : Node)
  deriving Inhabited

/-- The text of a key, if it is a string, a number or a truth value. -/
def keyText? : Node → Option String
  | .string s => some s
  | .integer i => some (Node.integer i).toText
  | .real x => some (Node.real x).toText
  | .bool b => some (Node.bool b).toText
  | _ => none

/-- The path of a key below a path. -/
def childPath (path segment : String) : String :=
  if path == "" then normalName segment else path ++ "." ++ normalName segment

mutual

/-- The findings below a node. -/
def findingsBelow (path : String) : Node → List Finding
  | .mapping entries => findingsOf path entries
  | _ => []

/-- The findings of the entries of a mapping. -/
def findingsOf (path : String) : List (Node × Node) → List Finding
  | [] => []
  | (key, node) :: r =>
    (match keyText? key with
      | none => [.unnamed path key]
      | some segment =>
        if isValidName (childPath path segment) then
          .setting (childPath path segment) node :: findingsBelow (childPath path segment) node
        else [.invalid (childPath path segment)])
      ++ findingsOf path r

end

/-- The findings of a document. -/
def findings (root : Node) : List Finding := findingsBelow "" root

/-- The setting of a finding. -/
def Finding.setting? : Finding → Option (String × Node)
  | setting name node => some (name, node)
  | _ => none

/-- The invalid path of a finding. -/
def Finding.invalid? : Finding → Option String
  | invalid path => some path
  | _ => none

/-- The settings of a document, with each mapping before its parts. -/
def flatten (root : Node) : List (String × Node) := (findings root).filterMap (·.setting?)

/-- The paths of a document that are no names. -/
def invalidPaths (root : Node) : List String := (findings root).filterMap (·.invalid?)

end ConfigLog.Config
