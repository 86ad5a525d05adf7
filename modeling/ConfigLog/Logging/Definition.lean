import ConfigLog.Files.Path
import ConfigLog.Logging.Error
import ConfigLog.Logging.Level
import ConfigLog.Tree.Record

set_option autoImplicit false

/-! # Logger definitions

What the configuration says about loggers: a set of definitions, one for each logger name, with the
appenders that the logger shall have. `Definitions.toNode` and `Definitions.ofNode` are the two
directions between such a set and a document tree.
-/

namespace ConfigLog.Logging

/-! ## Appenders -/

/-- Where an appender writes. -/
inductive Destination where
  | stdout
  | file (path : String)
  deriving Repr, DecidableEq

/-- Two destinations are the same; files are compared as paths. -/
def Destination.same : Destination → Destination → Bool
  | stdout, stdout => true
  | file a, file b => Files.Path.same a b
  | _, _ => false

/-- What an appender shall be like. An absent level is the lowest one, and an appender without a
pattern takes that of its logger. -/
structure AppenderDefinition where
  destination : Destination
  level : Option Level := none
  pattern : Option String := none
  deriving Repr, DecidableEq

/-- Two definitions ask for the same appender. -/
def AppenderDefinition.same (a b : AppenderDefinition) : Bool :=
  a.destination.same b.destination && a.level == b.level && a.pattern == b.pattern

/-- Two lists of definitions ask for the same appenders in the same order. -/
def sameAppenders : List AppenderDefinition → List AppenderDefinition → Bool
  | [], [] => true
  | a :: as, b :: bs => a.same b && sameAppenders as bs
  | _, _ => false

/-! ## Loggers -/

/-- What the logger of a name shall be like. -/
structure Definition where
  name : String
  level : Option Level := none
  pattern : Option String := none
  appenders : List AppenderDefinition := []
  deriving Repr, DecidableEq

/-- Two definitions ask for the same logger. -/
def Definition.same (a b : Definition) : Bool :=
  a.name == b.name && a.level == b.level && a.pattern == b.pattern
    && sameAppenders a.appenders b.appenders

/-! ## Sets of definitions -/

/-- Adds a definition to a list in name order; one with the same name is replaced. -/
def insertByName (d : Definition) : List Definition → List Definition
  | [] => [d]
  | e :: r =>
    if d.name < e.name then d :: e :: r
    else if e.name < d.name then e :: insertByName d r
    else d :: r

theorem mem_insertByName {d x : Definition} {ds : List Definition} (h : x ∈ insertByName d ds) :
    x = d ∨ x ∈ ds := by
  induction ds with
  | nil => simpa [insertByName] using h
  | cons e r ih =>
    simp only [insertByName] at h
    split at h
    · simpa using h
    · split at h
      · rcases List.mem_cons.1 h with h | h
        · exact .inr (by simp [h])
        · exact (ih h).imp id (List.mem_cons_of_mem _)
      · rcases List.mem_cons.1 h with h | h
        · exact .inl h
        · exact .inr (List.mem_cons_of_mem _ h)

theorem pairwise_insertByName {d : Definition} {ds : List Definition}
    (h : ds.Pairwise fun a b => a.name < b.name) :
    (insertByName d ds).Pairwise fun a b => a.name < b.name := by
  induction ds with
  | nil => simp [insertByName]
  | cons e r ih =>
    have ⟨he, hr⟩ := List.pairwise_cons.1 h
    simp only [insertByName]
    split
    · rename_i hd
      refine List.pairwise_cons.2 ⟨fun x hx => ?_, h⟩
      rcases List.mem_cons.1 hx with hx | hx
      · exact hx ▸ hd
      · exact String.lt_trans hd (he x hx)
    · split
      · rename_i hd
        refine List.pairwise_cons.2 ⟨fun x hx => ?_, ih hr⟩
        rcases mem_insertByName hx with hx | hx
        · exact hx ▸ hd
        · exact he x hx
      · rename_i h1 h2
        have heq : d.name = e.name := String.le_antisymm h2 h1
        exact List.pairwise_cons.2 ⟨fun x hx => heq ▸ he x hx, hr⟩

/-- A set of definitions, in name order and with each name once. -/
structure Definitions where
  toList : List Definition
  sorted : toList.Pairwise fun a b => a.name < b.name

namespace Definitions

/-- No definitions. -/
def empty : Definitions := ⟨[], .nil⟩

instance : Inhabited Definitions := ⟨empty⟩

/-- The set with one more definition, or with that of its name replaced. -/
def insert (ds : Definitions) (d : Definition) : Definitions :=
  ⟨insertByName d ds.toList, pairwise_insertByName ds.sorted⟩

/-- The definition of a name. -/
def get? (ds : Definitions) (name : String) : Option Definition :=
  ds.toList.find? (·.name == name)

/-- The name has a definition. -/
def contains (ds : Definitions) (name : String) : Bool := (ds.get? name).isSome

/-- The number of definitions. -/
def size (ds : Definitions) : Nat := ds.toList.length

/-- The set of the definitions of a list; of those with the same name the last one counts. -/
def ofList (ds : List Definition) : Definitions := ds.foldl insert empty

/-- Two lists ask for the same loggers in the same order. -/
def sameList : List Definition → List Definition → Bool
  | [], [] => true
  | a :: as, b :: bs => a.same b && sameList as bs
  | _, _ => false

/-- Two sets ask for the same loggers. -/
def same (a b : Definitions) : Bool := sameList a.toList b.toList

end Definitions

/-! ## Writing to a tree -/

/-- The type name of appenders on standard output. -/
def stdoutType : String := "StdoutLogAppender"

/-- The type name of appenders with a file. -/
def fileType : String := "FileLogAppender"

/-- The tree of an appender's definition. -/
def AppenderDefinition.toNode (a : AppenderDefinition) : Node :=
  let (type, file) := match a.destination with
    | .stdout => (stdoutType, none)
    | .file path => (fileType, some path)
  Record.write [
    ("type", some (.string type)),
    ("level", a.level.map (.string ·.name)),
    ("formatter", a.pattern.map .string),
    ("file", file.map .string)]

/-- The tree of a logger's definition. -/
def Definition.toNode (d : Definition) : Node :=
  Record.write [
    ("name", some (.string d.name)),
    ("level", d.level.map (.string ·.name)),
    ("formatter", d.pattern.map .string),
    ("appenders", some (.sequence (d.appenders.map (·.toNode))))]

/-- The tree of a set of definitions: a sequence in name order. -/
def Definitions.toNode (ds : Definitions) : Node := .sequence (ds.toList.map (·.toNode))

/-! ## Reading from a tree -/

/-- An error of the logging part inside of a record. -/
def LogError.toRecordError (e : LogError) : RecordError := .refused e.message

/-- A level by its name. -/
def Level.ofNode (n : Node) : RecordResult Level := do
  let text ← Record.string n
  match Level.ofName? text with
  | some l => .ok l
  | none => .error (LogError.unknownLevel text).toRecordError

/-- The fields of an appender as they are written. -/
structure AppenderFields where
  type : Option String := none
  level : Option Level := none
  pattern : Option String := none
  file : Option String := none

/-- Takes in the value of one field. -/
def AppenderFields.step (f : AppenderFields) (name : String) (value : Node) :
    RecordResult AppenderFields := do
  if name == "type" then return { f with type := some (← Record.string value) }
  else if name == "level" then return { f with level := ← Record.optional Level.ofNode value }
  else if name == "formatter" then
    return { f with pattern := ← Record.optional Record.string value }
  else return { f with file := ← Record.optional (Record.stringAs "path string") value }

/-- The error for a file appender without a file. -/
def withoutFile : LogError := .invalidDefinition (fileType ++ " requires a file")

/-- The appender that the fields ask for. A file appender needs a file, and an empty pattern counts
as none. -/
def AppenderFields.toDefinition (f : AppenderFields) : RecordResult AppenderDefinition := do
  let type ← Record.required "type" f.type
  let pattern := f.pattern.filter (· != "")
  if type == stdoutType then return { destination := .stdout, level := f.level, pattern }
  else if type == fileType then
    match f.file with
    | some path =>
      if path == "" then .error withoutFile.toRecordError
      else return { destination := .file path, level := f.level, pattern }
    | none => .error withoutFile.toRecordError
  else
    .error (LogError.invalidDefinition ("unknown appender type " ++ Text.quote type)).toRecordError

/-- The definition of an appender from its tree. -/
def AppenderDefinition.ofNode (n : Node) : RecordResult AppenderDefinition := do
  let fields ← Record.read "struct RawAppender" ["type", "level", "formatter", "file"]
    AppenderFields.step {} n
  fields.toDefinition

/-- The fields of a logger as they are written. -/
structure LoggerFields where
  name : Option String := none
  level : Option Level := none
  pattern : Option String := none
  appenders : List AppenderDefinition := []

/-- Takes in the value of one field. -/
def LoggerFields.step (f : LoggerFields) (name : String) (value : Node) :
    RecordResult LoggerFields := do
  if name == "name" then return { f with name := some (← Record.string value) }
  else if name == "level" then return { f with level := ← Record.optional Level.ofNode value }
  else if name == "formatter" then
    return { f with pattern := ← Record.optional Record.string value }
  else return { f with appenders := ← Record.items AppenderDefinition.ofNode value }

/-- The definition of a logger from its tree. -/
def Definition.ofNode (n : Node) : RecordResult Definition := do
  let f ← Record.read "struct LogDefine" ["name", "level", "formatter", "appenders"]
    LoggerFields.step {} n
  let name ← Record.required "name" f.name
  return { name, level := f.level, pattern := f.pattern, appenders := f.appenders }

/-- Why a tree is not a set of definitions. -/
inductive DefinitionsError where
  | record (error : RecordError)
  /-- A definition whose name is blank. -/
  | nameless

/-- The set of definitions from its tree; null is the empty set. -/
def Definitions.ofNode (n : Node) : Except DefinitionsError Definitions :=
  match n with
  | .null => .ok empty
  | n =>
    match Record.items Definition.ofNode n with
    | .error e => .error (.record e)
    | .ok ds =>
      if ds.any fun d => Text.isBlankText d.name then .error .nameless
      else .ok (ofList ds)

end ConfigLog.Logging
