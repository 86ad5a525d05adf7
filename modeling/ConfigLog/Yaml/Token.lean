import ConfigLog.Yaml.Tag

set_option autoImplicit false

/-! # YAML tokens

The tokens that YAML text is made of. The tokens that only indentation shows, the start and the end
of a block collection, are explicit.
-/

namespace ConfigLog.Yaml

/-- A token of YAML text. -/
inductive Token where
  | version (major minor : Nat)
  | tagDirective (handle : String) (leading : Tag)
  | documentStart
  | documentEnd
  | blockSequenceStart
  | blockMappingStart
  | blockEnd
  | flowSequenceStart
  | flowSequenceEnd
  | flowMappingStart
  | flowMappingEnd
  | blockEntry
  | flowEntry
  | key
  | value
  | alias (name : String)
  | anchor (name : String)
  | tag (handle : String) (suffix : Tag)
  /-- A scalar, and whether it stands there without quotes or a block header. -/
  | scalar (text : String) (plain : Bool)
  deriving BEq, DecidableEq, Repr

end ConfigLog.Yaml
