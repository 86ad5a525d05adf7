import ConfigLog.Value.Basic
import ConfigLog.Value.Container

set_option autoImplicit false

/-! # Conversions of values

Every kind of value has two written forms, a document tree and a text, and is read back from both:
`Value.toNode`, `Value.toText`, `Kind.ofNode` and `Kind.ofText`. The text of a scalar is its own;
that of a container is the text of its tree.
-/

namespace ConfigLog

open Number

/-! ## Writing -/

/-- The tree of a person. -/
def Person.toNode (p : Person) : Node :=
  Record.write [
    ("name", some (.string p.name)),
    ("age", some (.integer p.age)),
    ("sex", some (.bool p.sex))]

/-- The text of a temperature. -/
def celsiusText (degrees : Int) : String := String.ofList (intText degrees ++ ['C'])

mutual

/-- The tree of a value. -/
def Value.toNode : Value → Node
  | .whole i => .integer i
  | .single x => .real x.widen
  | .double x => .real x
  | .bool b => .bool b
  | .char c => .string c.toString
  | .string s => .string s
  | .path s => .string s
  | .sequence vs => .sequence (itemNodes vs)
  | .set vs => .sequence (itemNodes vs)
  | .map es => .mapping (entryNodes es)
  | .none => .null
  | .some v => v.toNode
  | .person p => p.toNode
  | .celsius d => .string (celsiusText d)
  | .definitions ds => ds.toNode

/-- The trees of items. -/
def Value.itemNodes : List Value → List Node
  | [] => []
  | v :: r => v.toNode :: itemNodes r

/-- The trees of entries. -/
def Value.entryNodes : List (String × Value) → List (Node × Node)
  | [] => []
  | (k, v) :: r => (.string k, v.toNode) :: entryNodes r

end

/-- The text of a value. -/
def Value.toText : Value → String
  | .whole i => String.ofList (intText i)
  | .single x => x.plain .single
  | .double x => x.plain .double
  | .bool b => if b then "true" else "false"
  | .char c => c.toString
  | .string s => s
  | .path s => s
  | v => v.toNode.toText

/-! ## Reading of scalars -/

/-- A whole number of a type from text, with blanks around it left out. -/
def Width.ofText (w : Width) (text : String) : Container.Result Value :=
  let cs := (Text.trim text).toList
  let number : Option Int := if w.signed then intOfText cs else (natOfText cs).map Int.ofNat
  match number.filter w.holds with
  | some i => .ok (.whole i)
  | none => .error (.parse text w.name)

/-- A whole number of a type from a node. -/
def Width.ofNode (w : Width) : Node → Container.Result Value
  | .integer i =>
    if w.holds i then .ok (.whole i) else .error (.parse (Node.integer i).toText w.name)
  | .real x => .error (.parse (Node.real x).toText w.name)
  | .string s => w.ofText s
  | other => .error (.wrongKind "integer" other)

/-- A floating-point number from text, with blanks around it left out. -/
def realOfText (f : Format) (type text : String) : Container.Result Binary :=
  match Binary.ofText f (Text.trim text).toList with
  | some x => .ok x
  | none => .error (.parse text type)

/-- A floating-point number from a node, rounded to the format. -/
def realOfNode (f : Format) (type : String) : Node → Container.Result Binary
  | .integer i => .ok ((Binary.ofInt .double i).toFormat f)
  | .real x => .ok (x.toFormat f)
  | .string s => realOfText f type s
  | other => .error (.wrongKind "float" other)

/-- A truth value from text, in any case and with blanks around it left out. -/
def boolOfText (text : String) : Container.Result Bool :=
  let word := Text.trim text
  if Text.equalIgnoringCase word "true" then .ok true
  else if Text.equalIgnoringCase word "false" then .ok false
  else .error (.parse word "bool")

/-- A truth value from a node. -/
def boolOfNode : Node → Container.Result Bool
  | .bool b => .ok b
  | .string s => boolOfText s
  | other => .error (.wrongKind "bool" other)

/-- A text of a single character. -/
def charOfText (text : String) : Container.Result Char :=
  match text.toList with
  | [c] => .ok c
  | _ => .error (.parse text "char")

/-- A character from a node: a text or a number of one character. -/
def charOfNode : Node → Container.Result Char
  | .string s => charOfText s
  | .integer i => charOfText (Node.integer i).toText
  | .real x => charOfText (Node.real x).toText
  | other => .error (.wrongKind "char" other)

/-- A path from a node. -/
def pathOfNode : Node → Container.Result String
  | .string s => .ok s
  | other => .error (.wrongKind "path" other)

/-! ## Reading of registered types -/

/-- The fields of a person that have been read. -/
structure PersonFields where
  name : Option String := none
  age : Option Int := none
  sex : Option Bool := none

/-- Takes in the value of one field. -/
def PersonFields.step (f : PersonFields) (name : String) (value : Node) :
    RecordResult PersonFields := do
  if name == "name" then return { f with name := some (← Record.string value) }
  else if name == "age" then
    return { f with age := some (← Record.whole "u32" 0 (Nat.pow 2 32 - 1) value) }
  else return { f with sex := some (← Record.bool value) }

/-- A person from a node. -/
def Person.ofNode (n : Node) : RecordResult Person := do
  let f ← Record.read "struct Person" ["name", "age", "sex"] PersonFields.step {} n
  let name ← Record.required "name" f.name
  let age ← Record.required "age" f.age
  let sex ← Record.required "sex" f.sex
  return { name, age := age.toNat, sex }

/-- A temperature from a node: a string of a whole number and its unit. -/
def celsiusOfNode (n : Node) : Container.Result Int :=
  match n.untagged with
  | .string text =>
    match text.toList.reverse with
    | 'C' :: r =>
      match (intOfText r.reverse).filter Width.i64.holds with
      | some i => .ok i
      | none => .error (.parse (String.ofList r.reverse) "i64")
    | _ => .error (.custom ("missing unit in " ++ Text.quote text))
  | _ => .error (.wrongKind "string" n)

/-- The set of logger definitions from a node. -/
def definitionsOfNode (n : Node) : Container.Result Logging.Definitions :=
  match Logging.Definitions.ofNode n with
  | .ok ds => .ok ds
  | .error (.record e) => .error (.record e)
  | .error .nameless => .error (.custom "logger definition without a name")

/-! ## Reading -/

/-- The value of a kind that a tree stands for. -/
def Kind.ofNode : Kind → Node → Container.Result Value
  | .whole w, n => w.ofNode n
  | .single, n => .single <$> realOfNode .single "f32" n
  | .double, n => .double <$> realOfNode .double "f64" n
  | .bool, n => .bool <$> boolOfNode n
  | .char, n => .char <$> charOfNode n
  | .string, n => .ok (.string n.toText)
  | .path, n => .path <$> pathOfNode n
  | .sequence _ k, n => .sequence <$> Container.readSequence (ofNode k) n
  | .set a k, n => .set <$> Container.readSet Value.compare a.keepsLast (ofNode k) n
  | .map _ k, n => .map <$> Container.readMap (ofNode k) n
  | .option k, n =>
    (fun | none => Value.none | some v => Value.some v) <$> Container.readOption (ofNode k) n
  | .person _, n =>
    match Person.ofNode n with
    | .ok p => .ok (.person p)
    | .error e => .error (.record e)
  | .celsius _, n => .celsius <$> celsiusOfNode n
  | .definitions, n => .definitions <$> definitionsOfNode n

/-- The value of a kind that a text stands for. -/
def Kind.ofText (k : Kind) (text : String) : Container.Result Value :=
  match k with
  | .whole w => w.ofText text
  | .single => .single <$> realOfText .single "f32" text
  | .double => .double <$> realOfText .double "f64" text
  | .bool => .bool <$> boolOfText text
  | .char => .char <$> charOfText text
  | .string => .ok (.string text)
  | .path => .ok (.path text)
  | k =>
    match Node.ofText? text with
    | some n => k.ofNode n
    | none => .error .unreadable

end ConfigLog
