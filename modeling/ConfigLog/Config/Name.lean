import ConfigLog.Text.Blank

set_option autoImplicit false

/-! # Names of configuration variables

A name consists of small letters, digits, dots and underscores. Names are given in any case and
stored in small letters.
-/

namespace ConfigLog.Config

/-- A character of a name. -/
def isNameChar (c : Char) : Bool :=
  ('a' ≤ c && c ≤ 'z') || Text.isDigit c || c == '.' || c == '_'

/-- A text that is a name. -/
def isValidName (name : String) : Bool := !name.toList.isEmpty && name.toList.all isNameChar

/-- The stored form of a name. -/
def normalName (name : String) : String := Text.lower name

end ConfigLog.Config
