import ConfigLog.Tree.Node

set_option autoImplicit false

/-! # TOML tables

Tables as they grow while a document is read. A table remembers how it came into being, because
that decides who may still add to it: a header may complete a table that so far is only implied by
longer headers, and a dotted key may add only to tables that dotted keys have made.
-/

namespace ConfigLog.Toml

/-- How a table came into being. -/
inductive Origin where
  /-- By a header of its own. -/
  | header
  /-- As a part of the header of another table. -/
  | implied
  /-- As a part of a dotted key. -/
  | dotted
  deriving DecidableEq

/-- What a key stands for. -/
inductive Item where
  /-- A finished value, which takes no more keys. -/
  | value (node : Node)
  | table (origin : Origin) (entries : List (String × Item))
  /-- The tables of an array of tables, the last one first. -/
  | tables (elements : List (List (String × Item)))

/-- A table: its origin and its entries. -/
abbrev Table := Origin × List (String × Item)

namespace Table

/-- The table that a document starts with. -/
def root : Table := (.header, [])

/-- The entries with the item of a key replaced or added. -/
def put (key : String) (item : Item) : List (String × Item) → List (String × Item)
  | [] => [(key, item)]
  | (k, i) :: r => if k == key then (key, item) :: r else (k, i) :: put key item r

/-- Changes the table at the end of a path, with new tables where there are none yet. -/
def descend (byDots : Bool) (change : Table → Option Table) : List String → Table → Option Table
  | [], t => change t
  | key :: path, (origin, entries) =>
    match entries.lookup key with
    | none => do
      let made : Origin := if byDots then .dotted else .implied
      let (o, es) ← descend byDots change path (made, [])
      return (origin, put key (.table o es) entries)
    | some (.value _) => none
    | some (.table o es) =>
      if byDots && o == .header then none
      else do
        let (o, es) ← descend byDots change path (o, es)
        return (origin, put key (.table o es) entries)
    | some (.tables []) => none
    | some (.tables (es :: more)) => do
      let (_, es) ← descend byDots change path (.header, es)
      return (origin, put key (.tables (es :: more)) entries)

/-- Opens the table of a header. -/
def openTable (key : String) (t : Table) : Option Table :=
  match t.2.lookup key with
  | none => some (t.1, put key (.table .header []) t.2)
  | some (.table .implied es) => some (t.1, put key (.table .header es) t.2)
  | some _ => none

/-- Opens one more table of an array of tables. -/
def openElement (key : String) (t : Table) : Option Table :=
  match t.2.lookup key with
  | none => some (t.1, put key (.tables [[]]) t.2)
  | some (.tables es) => some (t.1, put key (.tables ([] :: es)) t.2)
  | some _ => none

/-- Adds a value under a new key. -/
def addValue (key : String) (value : Node) (t : Table) : Option Table :=
  match t.2.lookup key with
  | none => some (t.1, t.2 ++ [(key, .value value)])
  | some _ => none

/-- Adds a value under a key that may be dotted. -/
def addDotted (path : List String) (key : String) (value : Node) (t : Table) : Option Table :=
  if path.isEmpty then addValue key value t
  else descend true
    (fun t => if t.1 == .dotted then addValue key value t else none) path t

end Table

/-! ## Nodes -/

/-- Puts an entry into its place in a list in the order of keys. -/
def insertByKey (key : String) (node : Node) : List (String × Node) → List (String × Node)
  | [] => [(key, node)]
  | (k, n) :: r => if key < k then (key, node) :: (k, n) :: r else (k, n) :: insertByKey key node r

/-- The mapping of entries in the order of keys. -/
def mappingOf (entries : List (String × Node)) : Node :=
  let sorted := entries.foldl (fun done e => insertByKey e.1 e.2 done) []
  .mapping (sorted.map fun e => (.string e.1, e.2))

mutual

/-- The node of an item. -/
def Item.toNode : Item → Node
  | .value n => n
  | .table _ entries => mappingOf (entryNodes entries)
  | .tables elements => .sequence (elementNodes elements).reverse

/-- The nodes of the entries of a table. -/
def Item.entryNodes : List (String × Item) → List (String × Node)
  | [] => []
  | (k, i) :: r => (k, i.toNode) :: entryNodes r

/-- The nodes of the tables of an array. -/
def Item.elementNodes : List (List (String × Item)) → List Node
  | [] => []
  | es :: r => mappingOf (entryNodes es) :: elementNodes r

end

/-- The node of a table. -/
def Table.toNode (t : Table) : Node := (Item.table t.1 t.2).toNode

end ConfigLog.Toml
