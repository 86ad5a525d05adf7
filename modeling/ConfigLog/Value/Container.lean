import ConfigLog.Keyed
import ConfigLog.Tree.Text
import ConfigLog.Value.Error

set_option autoImplicit false

/-! # Containers in trees

Reading and writing of containers for items of any type, given the reading and writing of one item.
A container is read whole or not at all: the first item that fails decides.
-/

namespace ConfigLog.Container

variable {α : Type}

/-- The result of reading a node. -/
abbrev Result (α : Type) := Except ConvertError α

/-! ## Sequences -/

/-- The items of a sequence node; null is the empty sequence. -/
def items : Node → Result (List Node)
  | .sequence ns => .ok ns
  | .null => .ok []
  | other => .error (.wrongKind "sequence" other)

/-- Reads every item of a sequence. -/
def readSequence (read : Node → Result α) (n : Node) : Result (List α) := do
  (← items n).mapM read

/-! ## Sets -/

/-- Puts an item into its place in an ascending list. If the last of equal items counts, it takes the
place of one that equals it. -/
def insertItem (order : α → α → Ordering) (last : Bool) (a : α) : List α → List α
  | [] => [a]
  | b :: r =>
    match order a b with
    | .lt => a :: b :: r
    | .eq => (if last then a else b) :: r
    | .gt => b :: insertItem order last a r

/-- The ascending list of the items of a list, each of them once. -/
def toSet (order : α → α → Ordering) (last : Bool) (as : List α) : List α :=
  as.foldl (fun done a => insertItem order last a done) []

/-- Reads every item of a sequence and makes a set of them. -/
def readSet (order : α → α → Ordering) (last : Bool) (read : Node → Result α) (n : Node) :
    Result (List α) :=
  return toSet order last (← readSequence read n)

/-! ## Maps -/

/-- The text of a key. Only strings, numbers and truth values are keys. -/
def keyText : Node → Result String
  | .sequence ns => .error (.wrongKind "scalar key" (.sequence ns))
  | .mapping es => .error (.wrongKind "scalar key" (.mapping es))
  | .tagged t c => .error (.wrongKind "scalar key" (.tagged t c))
  | .null => .error (.wrongKind "scalar key" .null)
  | key => .ok key.toText

/-- The entries of a mapping node with the texts of their keys; null is the empty mapping. -/
def entries : Node → Result (List (String × Node))
  | .mapping es => es.mapM fun e => return (← keyText e.1, e.2)
  | .null => .ok []
  | other => .error (.wrongKind "mapping" other)

/-- Reads every value of a mapping, after all keys have been found good. -/
def readMap (read : Node → Result α) (n : Node) : Result (List (String × α)) := do
  let es ← (← entries n).mapM fun e => return (e.1, ← read e.2)
  return Keyed.ofList es

/-! ## Optional values -/

/-- Reads a value that may be null. -/
def readOption (read : Node → Result α) : Node → Result (Option α)
  | .null => .ok none
  | n => some <$> read n

end ConfigLog.Container
