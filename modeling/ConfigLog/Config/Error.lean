import ConfigLog.Document.Format
import ConfigLog.Value.Kind

set_option autoImplicit false

/-! # Errors of the configuration -/

namespace ConfigLog.Config

/-- Why a variable or a document was turned down. -/
inductive ConfigError where
  | invalidName (name : String)
  /-- The name is registered with another kind. -/
  | kindMismatch (name : String) (registered requested : Kind)
  | document (error : Document.DocumentError)
  deriving DecidableEq, Repr

/-- The wording of the error, as far as it is this library's own. -/
def ConfigError.message : ConfigError → Option String
  | invalidName name => some ("invalid config name: " ++ Text.quote name)
  | kindMismatch name registered requested =>
    some ("config " ++ name ++ " is registered as " ++ registered.typeName ++ ", requested as "
      ++ requested.typeName)
  | document e => e.message

end ConfigLog.Config
