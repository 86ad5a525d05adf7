set_option autoImplicit false

/-! # File paths

A path is a text; what it means is its list of components. Two texts with the same components are
the same path: a doubled slash, a slash at the end and a dot between components count for nothing.
-/

namespace ConfigLog.Files

/-- A step of a path. -/
inductive Component where
  | root
  | current
  | parent
  | name (text : String)
  deriving BEq, DecidableEq, Repr

namespace Component

/-- The place of a component among the kinds of components. -/
def rank : Component → Nat
  | root => 0
  | current => 1
  | parent => 2
  | name _ => 3

/-- The order of components: by kind, and names by their characters. -/
def compare (a b : Component) : Ordering :=
  match a, b with
  | name s, name t => Ord.compare s t
  | a, b => Ord.compare a.rank b.rank

end Component

namespace Path

/-- The parts of a text between slashes. -/
def parts : List Char → List (List Char)
  | [] => [[]]
  | '/' :: r => [] :: parts r
  | c :: r =>
    match parts r with
    | [] => [[c]]
    | p :: ps => (c :: p) :: ps

/-- The component that a part stands for; an empty part and a single dot stand for none. -/
def component? (part : List Char) : Option Component :=
  if part == [] || part == ['.'] then none
  else if part == ['.', '.'] then some .parent
  else some (.name (String.ofList part))

/-- The components of a path. A dot counts only as the first part. -/
def components (path : String) : List Component :=
  let ps := parts path.toList
  let first :=
    if path.toList.head? == some '/' then [Component.root]
    else if ps.head? == some ['.'] then [.current]
    else []
  first ++ ps.filterMap component?

/-- A path from its end on, without the slashes and dots at the end that count for nothing. -/
def trimmed : List Char → List Char
  | '/' :: r => if r.isEmpty then ['/'] else trimmed r
  | '.' :: '/' :: r => trimmed ('/' :: r)
  | r => r

/-- The path without its last component. -/
def parent (path : String) : String :=
  let rest := (trimmed path.toList.reverse).dropWhile (· != '/')
  String.ofList (trimmed rest).reverse

/-- Two texts are the same path. -/
def same (a b : String) : Bool := components a == components b

/-- Lexicographic order of lists of components. -/
def compareComponents : List Component → List Component → Ordering
  | [], [] => .eq
  | [], _ => .lt
  | _, [] => .gt
  | a :: as, b :: bs => (a.compare b).then (compareComponents as bs)

/-- The order of paths. -/
def compare (a b : String) : Ordering := compareComponents (components a) (components b)

/-- The last component of a path if it is a name. -/
def fileName? (path : String) : Option String :=
  match (components path).getLast? with
  | some (.name s) => some s
  | _ => none

/-- The part of a file name behind its last dot; a dot at the start does not count. -/
def extension? (path : String) : Option String := do
  let name ← fileName? path
  let behind := name.toList.reverse.takeWhile (· != '.')
  let before := name.toList.reverse.dropWhile (· != '.')
  match before with
  | _ :: _ :: _ => some (String.ofList behind.reverse)
  | _ => none

end Path

end ConfigLog.Files
