set_option autoImplicit false

/-! # Kinds of values

The type of a configuration variable is a code. Scalars, two registered records and the set of
logger definitions are the leaves; containers take the kind of their items.
-/

namespace ConfigLog

/-- The whole-number types. -/
inductive Width where
  | i8
  | i16
  | i32
  | i64
  | isize
  | u8
  | u16
  | u32
  | u64
  | usize
  deriving DecidableEq, Repr

namespace Width

/-- The type has numbers below zero. -/
def signed : Width → Bool
  | i8 | i16 | i32 | i64 | isize => true
  | u8 | u16 | u32 | u64 | usize => false

/-- The number of bits. -/
def bits : Width → Nat
  | i8 | u8 => 8
  | i16 | u16 => 16
  | i32 | u32 => 32
  | i64 | u64 | isize | usize => 64

/-- The smallest number of the type. -/
def low (w : Width) : Int := if w.signed then -Nat.pow 2 (w.bits - 1) else 0

/-- The largest number of the type. -/
def high (w : Width) : Int := if w.signed then Nat.pow 2 (w.bits - 1) - 1 else Nat.pow 2 w.bits - 1

/-- The number lies in the range of the type. -/
def holds (w : Width) (i : Int) : Bool := w.low ≤ i && i ≤ w.high

/-- The name of the type. -/
def name : Width → String
  | i8 => "i8"
  | i16 => "i16"
  | i32 => "i32"
  | i64 => "i64"
  | isize => "isize"
  | u8 => "u8"
  | u16 => "u16"
  | u32 => "u32"
  | u64 => "u64"
  | usize => "usize"

end Width

/-- The containers of items in the order of insertion. They differ in name only. -/
inductive SequenceForm where
  | vector
  | deque
  | linked
  deriving DecidableEq, Repr

/-- Whether a container keeps its items or keys in an order that may be relied on. -/
inductive Arrangement where
  | ordered
  | hashed
  deriving DecidableEq, Repr

/-- Of equal items an ordered set keeps the last one, a hashed one the first. -/
def Arrangement.keepsLast : Arrangement → Bool
  | ordered => true
  | hashed => false

/-- The type of a value. -/
inductive Kind where
  | whole (width : Width)
  | single
  | double
  | bool
  | char
  | string
  | path
  | sequence (form : SequenceForm) (item : Kind)
  | set (arrangement : Arrangement) (item : Kind)
  /-- A map from texts. -/
  | map (arrangement : Arrangement) (item : Kind)
  | option (item : Kind)
  /-- A record that a module of the program around declares. -/
  | person (declared : String)
  /-- A temperature, from a module of the program around. -/
  | celsius (declared : String)
  | definitions
  deriving DecidableEq, Repr

namespace Kind

/-- The full name of a type, as messages and views give it. -/
def typeName : Kind → String
  | whole w => w.name
  | single => "f32"
  | double => "f64"
  | bool => "bool"
  | char => "char"
  | string => "alloc::string::String"
  | path => "std::path::PathBuf"
  | sequence .vector k => "alloc::vec::Vec<" ++ k.typeName ++ ">"
  | sequence .deque k => "alloc::collections::vec_deque::VecDeque<" ++ k.typeName ++ ">"
  | sequence .linked k => "alloc::collections::linked_list::LinkedList<" ++ k.typeName ++ ">"
  | set .ordered k => "alloc::collections::btree::set::BTreeSet<" ++ k.typeName ++ ">"
  | set .hashed k => "std::collections::hash::set::HashSet<" ++ k.typeName ++ ">"
  | map .ordered k =>
    "alloc::collections::btree::map::BTreeMap<alloc::string::String, " ++ k.typeName ++ ">"
  | map .hashed k =>
    "std::collections::hash::map::HashMap<alloc::string::String, " ++ k.typeName ++ ">"
  | option k => "core::option::Option<" ++ k.typeName ++ ">"
  | person declared => declared ++ "::Person"
  | celsius declared => declared ++ "::Celsius"
  | definitions => "livelog::logging::define::LogDefines"

end Kind

end ConfigLog
