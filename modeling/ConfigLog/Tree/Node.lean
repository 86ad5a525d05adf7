import ConfigLog.Number.Binary

set_option autoImplicit false

/-! # Document trees

A `Node` is what every document format is read into and what every typed value is converted from
and to: a scalar, a sequence, a mapping with nodes as keys, or a tagged node. Two nodes are the
same (`Node.same`) when they have the same shape and content, where the order of a mapping does not
count, not-a-number equals itself and the two zeros are equal.
-/

namespace ConfigLog

open Number

/-- A document tree. -/
inductive Node where
  | null
  | bool (value : Bool)
  /-- A whole number between `-2^63` and `2^64 - 1`. -/
  | integer (value : Int)
  /-- A double-precision number. -/
  | real (value : Binary)
  | string (value : String)
  | sequence (items : List Node)
  /-- Entries in document order, with keys that are pairwise not the same. -/
  | mapping (entries : List (Node × Node))
  /-- A node with a tag, named without its leading exclamation mark. -/
  | tagged (tag : String) (content : Node)
  deriving Inhabited, Repr

namespace Node

/-! ## Kinds -/

/-- The word for the kind of a node in messages. -/
def kind : Node → String
  | null => "null"
  | bool _ => "bool"
  | integer _ => "number"
  | real _ => "number"
  | string _ => "string"
  | sequence _ => "sequence"
  | mapping _ => "mapping"
  | tagged .. => "tagged value"

/-- The node under all tags. -/
def untagged : Node → Node
  | tagged _ content => content.untagged
  | node => node

/-- The name of a tag without one leading exclamation mark, unless the mark is all there is. -/
def tagName (tag : String) : String :=
  match tag.toList with
  | '!' :: c :: r => String.ofList (c :: r)
  | _ => tag

/-! ## Sameness -/

mutual

/-- Two nodes have the same content. -/
def same : Node → Node → Bool
  | null, null => true
  | bool a, bool b => a == b
  | integer a, integer b => a == b
  | real a, real b => a.same b
  | string a, string b => a == b
  | sequence as, sequence bs => sameItems as bs
  | mapping as, mapping bs => as.length == bs.length && sameEntries as bs
  | tagged t a, tagged u b => t == u && same a b
  | _, _ => false

/-- Two lists of nodes have the same content in the same order. -/
def sameItems : List Node → List Node → Bool
  | [], [] => true
  | a :: as, b :: bs => same a b && sameItems as bs
  | _, _ => false

/-- Each of the first entries is among the second ones. -/
def sameEntries : List (Node × Node) → List (Node × Node) → Bool
  | [], _ => true
  | (k, v) :: r, bs => bs.any (fun e => same k e.1 && same v e.2) && sameEntries r bs

end

/-! ## Mappings -/

/-- Entries with one more: an entry with the same key is replaced where it stands, otherwise the
new one comes last. -/
def insertEntry (key value : Node) : List (Node × Node) → List (Node × Node)
  | [] => [(key, value)]
  | (k, v) :: r => if same k key then (k, value) :: r else (k, v) :: insertEntry key value r

/-- A key that is the same as the given one occurs among the entries. -/
def hasKey (key : Node) (entries : List (Node × Node)) : Bool := entries.any fun e => same e.1 key

/-- The mapping with entries inserted one after the other. -/
def mappingOf (entries : List (Node × Node)) : Node :=
  mapping (entries.foldl (fun acc e => insertEntry e.1 e.2 acc) [])

end Node

end ConfigLog
