import ConfigLog.Text.Quoted
import ConfigLog.Number.Decimal
import ConfigLog.Tree.Node

set_option autoImplicit false

/-! # Records in trees

A record is written as a mapping from field names to values. Reading one is stricter than reading a
scalar: a value must have exactly the kind that its field asks for, fields that the record does not
know are left out of account, and no field may be given twice. Tags are looked through everywhere.
-/

namespace ConfigLog

/-- Why a node is not the record it should be. -/
inductive RecordError where
  | wrongKind (found : Node) (expected : String)
  | outOfRange (found : Int) (expected : String)
  | missing (field : String)
  | duplicate (field : String)
  /-- A value of the right kind that means nothing. -/
  | refused (message : String)

namespace RecordError

/-- A floating-point number as messages write it, with a point in any case. -/
def realText (x : Number.Binary) : String :=
  let s := x.plain .double
  if x.isFinite && !s.toList.contains '.' then s ++ ".0" else s

/-- How messages name a node. -/
def describe : Node → String
  | .null => "unit value"
  | .bool b => "boolean `" ++ (if b then "true" else "false") ++ "`"
  | .integer i => "integer `" ++ String.ofList (Number.intText i) ++ "`"
  | .real x => "floating point `" ++ realText x ++ "`"
  | .string s => "string " ++ Text.quote s
  | .sequence _ => "sequence"
  | .mapping _ => "map"
  | .tagged .. => "enum"

/-- The wording of the error. -/
def message : RecordError → String
  | wrongKind found expected => "invalid type: " ++ describe found ++ ", expected " ++ expected
  | outOfRange found expected =>
    "invalid value: " ++ describe (.integer found) ++ ", expected " ++ expected
  | missing field => "missing field `" ++ field ++ "`"
  | duplicate field => "duplicate field `" ++ field ++ "`"
  | refused message => message

end RecordError

/-- The result of reading a record or a part of one. -/
abbrev RecordResult := Except RecordError

namespace Record

/-! ## Leaves -/

/-- A string, where messages name what is expected. -/
def stringAs (expected : String) (n : Node) : RecordResult String :=
  match n.untagged with
  | .string s => .ok s
  | other => .error (.wrongKind other expected)

/-- A string. -/
def string (n : Node) : RecordResult String := stringAs "a string" n

/-- A truth value. -/
def bool (n : Node) : RecordResult Bool :=
  match n.untagged with
  | .bool b => .ok b
  | other => .error (.wrongKind other "a boolean")

/-- A whole number in a range, where messages name the range. -/
def whole (expected : String) (low high : Int) (n : Node) : RecordResult Int :=
  match n.untagged with
  | .integer i =>
    if low ≤ i && i ≤ high then .ok i else .error (.outOfRange i expected)
  | other => .error (.wrongKind other expected)

/-- A value that may be null. -/
def optional {α : Type} (read : Node → RecordResult α) : Node → RecordResult (Option α)
  | .null => .ok none
  | n => some <$> read n

/-- Items of a sequence; null is the empty sequence. -/
def items {α : Type} (read : Node → RecordResult α) (n : Node) : RecordResult (List α) :=
  match n.untagged with
  | .null => .ok []
  | .sequence ns => ns.mapM read
  | other => .error (.wrongKind other "a sequence")

/-! ## Fields -/

/-- Reads the fields of a record in document order. `step` takes the value of a known field into
what has been read before. -/
def fold {σ : Type} (fields : List String) (step : σ → String → Node → RecordResult σ) :
    List String → σ → List (Node × Node) → RecordResult σ
  | _, s, [] => .ok s
  | seen, s, (k, v) :: r => do
    let name ← stringAs "field identifier" k
    if !fields.contains name then fold fields step seen s r
    else if seen.contains name then .error (.duplicate name)
    else fold fields step (name :: seen) (← step s name v) r

/-- Reads a record, where messages name what is expected; null is the record without fields. -/
def read {σ : Type} (expected : String) (fields : List String)
    (step : σ → String → Node → RecordResult σ) (start : σ) (n : Node) : RecordResult σ :=
  match n.untagged with
  | .null => .ok start
  | .mapping entries => fold fields step [] start entries
  | other => .error (.wrongKind other expected)

/-- A field that must be given. -/
def required {α : Type} (field : String) : Option α → RecordResult α
  | some a => .ok a
  | none => .error (.missing field)

/-! ## Writing -/

/-- A mapping of fields, those without a value left out. -/
def write (fields : List (String × Option Node)) : Node :=
  .mapping (fields.filterMap fun f => f.2.map (.string f.1, ·))

end Record

end ConfigLog
