import ConfigLog.Tree.Node

set_option autoImplicit false

/-! # Tags in full

A tag in full is what its handle stands for and its suffix, one after the other. It is kept as
bytes, because the escapes in a tag may spell bytes that are not text. A tag that starts with an
exclamation mark is local: it stays around its node if it is text, and otherwise the node is read
as if the tag were not there.
-/

namespace ConfigLog.Yaml

/-- A tag or a part of one, as bytes. -/
abbrev Tag := List UInt8

namespace Tag

/-- The bytes of a text. -/
def ofText (s : String) : Tag := s.toUTF8.toList

/-- The bytes before the first null, where a part of a tag ends. -/
def beforeNull (t : Tag) : Tag := t.takeWhile (· != 0)

/-- The tag starts with an exclamation mark. -/
def isLocal (t : Tag) : Bool := t.head? == some 0x21

/-- The name of a local tag that is text. The mark at its start does not belong to the name, and
neither does a second one behind it. -/
def localName? (t : Tag) : Option String :=
  if t.isLocal then
    (String.fromUTF8? t.toByteArray).map fun s => Node.tagName (Node.tagName s)
  else none

end Tag

end ConfigLog.Yaml
