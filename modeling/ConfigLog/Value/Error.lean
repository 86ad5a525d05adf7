import ConfigLog.Text.Quoted
import ConfigLog.Tree.Record

set_option autoImplicit false

/-! # Errors of conversions -/

namespace ConfigLog

/-- Why a node or a text is no value of a type. -/
inductive ConvertError where
  /-- A scalar that is not written like a value of the type. -/
  | parse (input type : String)
  /-- A node of the wrong kind. -/
  | shape (expected found : String)
  /-- Text that is not well-formed YAML. -/
  | unreadable
  /-- A node that is not the record it should be. -/
  | record (error : RecordError)
  /-- A failure of a registered conversion. -/
  | custom (message : String)

namespace ConvertError

/-- The wording of the error; unreadable text has none of its own. -/
def message : ConvertError → Option String
  | parse input type => some ("cannot parse " ++ Text.quote input ++ " as " ++ type)
  | shape expected found => some ("expected " ++ expected ++ ", found " ++ found)
  | unreadable => none
  | record e => some ("yaml error: " ++ e.message)
  | custom m => some m

/-- The error for a node of the wrong kind. -/
def wrongKind (expected : String) (n : Node) : ConvertError := shape expected n.kind

end ConvertError

end ConfigLog
