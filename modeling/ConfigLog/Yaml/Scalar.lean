import ConfigLog.Number.Decimal
import ConfigLog.Yaml.Tag

set_option autoImplicit false

/-! # YAML scalars

What a scalar means: `resolve` for one without quotes, by its text alone, and `scalarNode` for any
one, by its tag. A text of digits that starts with a superfluous zero is not a number.
-/

namespace ConfigLog.Yaml

open Number

/-- Digits that start with a zero without being zero itself, with or without a sign. -/
def isZeroPadded (cs : List Char) : Bool :=
  let body := match cs with
    | '+' :: r => r
    | '-' :: r => r
    | r => r
  match body with
  | '0' :: d :: r => (d :: r).all Text.isDigit
  | _ => false

/-- The words for null. -/
def isNullWord (s : String) : Bool := ["null", "Null", "NULL", "~"].contains s

/-- The value of a word for true or false. -/
def boolOf? (s : String) : Option Bool :=
  if ["true", "True", "TRUE"].contains s then some true
  else if ["false", "False", "FALSE"].contains s then some false
  else none

/-! ## Whole numbers -/

/-- Digits behind the mark of their base: hexadecimal, octal or binary. -/
def markedDigits : List Char → Option Nat
  | '0' :: 'x' :: r => natOfDigits 16 r
  | '0' :: 'o' :: r => natOfDigits 8 r
  | '0' :: 'b' :: r => natOfDigits 2 r
  | _ => none

/-- A whole number of any size. -/
def wholeOf? (cs : List Char) : Option Int :=
  let decimal (digits : List Char) : Option Nat :=
    if isZeroPadded cs then none else natOfDigits 10 digits
  match cs with
  | '-' :: r => ((markedDigits r <|> decimal r).map fun n => -(n : Int))
  | '+' :: r => (markedDigits r <|> decimal r).map fun n => (n : Int)
  | r => (markedDigits r <|> decimal r).map fun n => (n : Int)

/-- What a whole number becomes. -/
inductive Whole where
  | node (value : Int)
  /-- A number that needs more than 64 and at most 128 bits cannot be represented. -/
  | unsupported
  /-- A number beyond that is read as a floating-point number. -/
  | notWhole

/-- What the text of a whole number becomes, by its size. -/
def Whole.of (cs : List Char) : Whole :=
  match wholeOf? cs with
  | none => .notWhole
  | some i =>
    if -Nat.pow 2 63 ≤ i && i < Nat.pow 2 64 then .node i
    else if -Nat.pow 2 127 ≤ i && i < Nat.pow 2 128 then .unsupported
    else .notWhole

/-! ## Floating-point numbers -/

/-- A floating-point number; one that is too large for the format is none. -/
def realOf? (s : String) : Option Binary :=
  let cs := s.toList
  let body := match cs with
    | '+' :: r => if r.head? == some '+' || r.head? == some '-' then none else some r
    | r => some r
  match body with
  | none => none
  | some b =>
    if [".inf", ".Inf", ".INF"].contains (String.ofList b) then some (.infinity false)
    else if ["-.inf", "-.Inf", "-.INF"].contains s then some (.infinity true)
    else if [".nan", ".NaN", ".NAN"].contains s then some .nan
    else (Binary.ofText .double b).filter (·.isFinite)

/-! ## Meaning -/

/-- The node of a scalar without quotes. -/
def resolve (s : String) : Option Node :=
  if s == "" || isNullWord s then some .null
  else
    match boolOf? s with
    | some b => some (.bool b)
    | none =>
      match Whole.of s.toList with
      | .node i => some (.integer i)
      | .unsupported => none
      | .notWhole =>
        if isZeroPadded s.toList then some (.string s)
        else match realOf? s with
          | some x => some (.real x)
          | none => some (.string s)

/-- The node of a scalar by its text and whether it stands without quotes. -/
def untaggedScalar (s : String) (plain : Bool) : Option Node :=
  if plain then resolve s else some (.string s)

/-- The node of a scalar with a tag. The four standard tags of scalars force a reading, a local tag
stays, and every other tag makes a string. -/
def scalarNode (tag : Option Tag) (s : String) (plain : Bool) : Option Node :=
  match tag with
  | none => untaggedScalar s plain
  | some t =>
    if t == .ofText "tag:yaml.org,2002:bool" then (boolOf? s).map .bool
    else if t == .ofText "tag:yaml.org,2002:int" then
      match Whole.of s.toList with
      | .node i => some (.integer i)
      | _ => none
    else if t == .ofText "tag:yaml.org,2002:float" then (realOf? s).map .real
    else if t == .ofText "tag:yaml.org,2002:null" then (if isNullWord s then some .null else none)
    else if t.isLocal then
      let node := untaggedScalar s plain
      match t.localName? with
      | some name => node.map (.tagged name)
      | none => node
    else some (.string s)

/-- A text that a reader would not take for a string if it stood there without quotes. -/
def needsQuotes (s : String) : Bool :=
  isZeroPadded s.toList ||
    match resolve s with
    | some (.string _) => false
    | _ => true

end ConfigLog.Yaml
