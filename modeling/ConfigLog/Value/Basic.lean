import ConfigLog.Logging.Definition
import ConfigLog.Value.Kind

set_option autoImplicit false

/-! # Values

The values that configuration variables hold. `Value.same` is the equality that decides whether a
variable changes: not-a-number differs from itself, and paths and definitions are compared by what
they mean. Sets are kept in ascending order without repeats and maps in ascending order of their
keys, whether or not their type promises an order; `Value.compare` is that order.
-/

namespace ConfigLog

open Number

/-- A registered record: a person. -/
structure Person where
  name : String
  age : Nat
  sex : Bool
  deriving DecidableEq, Repr

/-- The value of a variable. -/
inductive Value where
  | whole (value : Int)
  | single (value : Binary)
  | double (value : Binary)
  | bool (value : Bool)
  | char (value : Char)
  | string (value : String)
  | path (value : String)
  | sequence (items : List Value)
  | set (items : List Value)
  | map (entries : List (String × Value))
  | none
  | some (value : Value)
  | person (value : Person)
  /-- A temperature in degrees. -/
  | celsius (degrees : Int)
  | definitions (value : Logging.Definitions)
  deriving Inhabited

namespace Value

/-! ## Sameness -/

mutual

/-- Two values are equal under the equality of their type. -/
def same : Value → Value → Bool
  | whole a, whole b => a == b
  | single a, single b => a.equal b
  | double a, double b => a.equal b
  | bool a, bool b => a == b
  | char a, char b => a == b
  | string a, string b => a == b
  | path a, path b => Files.Path.same a b
  | sequence as, sequence bs => sameItems as bs
  | set as, set bs => sameItems as bs
  | map as, map bs => sameEntries as bs
  | none, none => true
  | some a, some b => same a b
  | person a, person b => a == b
  | celsius a, celsius b => a == b
  | definitions a, definitions b => a.same b
  | _, _ => false

/-- Two lists of values are equal item by item. -/
def sameItems : List Value → List Value → Bool
  | [], [] => true
  | a :: as, b :: bs => same a b && sameItems as bs
  | _, _ => false

/-- Two lists of entries have the same keys with equal values, in the same order. -/
def sameEntries : List (String × Value) → List (String × Value) → Bool
  | [], [] => true
  | (k, a) :: as, (l, b) :: bs => k == l && same a b && sameEntries as bs
  | _, _ => false

end

/-! ## Order -/

/-- The order of two texts by their characters. -/
def compareText (a b : String) : Ordering :=
  if a < b then .lt else if b < a then .gt else .eq

mutual

/-- The order of the items of a set. Types without an order give `eq`. -/
def compare : Value → Value → Ordering
  | whole a, whole b => Ord.compare a b
  | bool a, bool b => Ord.compare a b
  | char a, char b => Ord.compare a.toNat b.toNat
  | string a, string b => compareText a b
  | path a, path b => Files.Path.compare a b
  | sequence as, sequence bs => compareItems as bs
  | set as, set bs => compareItems as bs
  | map as, map bs => compareEntries as bs
  | none, none => .eq
  | none, some _ => .lt
  | some _, none => .gt
  | some a, some b => compare a b
  | _, _ => .eq

/-- Lexicographic order of lists of values. -/
def compareItems : List Value → List Value → Ordering
  | [], [] => .eq
  | [], _ => .lt
  | _, [] => .gt
  | a :: as, b :: bs => (compare a b).then (compareItems as bs)

/-- Lexicographic order of lists of entries. -/
def compareEntries : List (String × Value) → List (String × Value) → Ordering
  | [], [] => .eq
  | [], _ => .lt
  | _, [] => .gt
  | (k, a) :: as, (l, b) :: bs =>
    ((compareText k l).then (compare a b)).then (compareEntries as bs)

end

end Value

end ConfigLog
