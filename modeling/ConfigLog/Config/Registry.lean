import ConfigLog.Config.Change
import ConfigLog.Config.Error

set_option autoImplicit false

/-! # The registry

Registered variables are found by their names in any case. A name is registered at most once, with
one kind, until the registry is cleared; who still holds a variable then may go on using it.
-/

namespace ConfigLog.Config.State

/-! ## Records -/

/-- The record about a name that is registered already. -/
def registeredRecord (name : String) : Logging.Record where
  level := .debug
  target := "livelog::config::registry"
  message := "config " ++ name ++ " already registered"
  file := "src/config/registry.rs"
  line := 72

/-- The record about a text that is no name. -/
def refusedRecord (name : String) : Logging.Record where
  level := .error
  target := "livelog::config::registry"
  message := "refusing to register config with invalid name " ++ Text.quote name
  file := "src/config/registry.rs"
  line := 77

/-- The record about a variable of another kind. -/
def mismatchRecord (name : String) (registered requested : Kind) : Logging.Record where
  level := .error
  target := "livelog::config::registry"
  message := "config " ++ name ++ " exists with type " ++ registered.typeName
    ++ " but was requested as " ++ requested.typeName
  file := "src/config/registry.rs"
  line := 152

/-! ## Looking up -/

/-- The variable that is registered under a name. -/
def find? (s : State) (name : String) : Option VariableId := s.names.lookup (normalName name)

/-- Checks that a registered variable has the kind that is asked for. -/
def expectKind (s : State) (name : String) (v : VariableId) (kind : Kind) :
    State × Except ConfigError VariableId :=
  match s.vars[v]? with
  | none => (s, .ok v)
  | some x =>
    if x.kind == kind then (s, .ok v)
    else (s.emit (mismatchRecord name x.kind kind), .error (.kindMismatch name x.kind kind))

/-- The variable of a kind that is registered under a name. -/
def lookup (s : State) (name : String) (kind : Kind) : State × Option VariableId :=
  match s.find? name with
  | none => (s, none)
  | some v =>
    let (s, result) := s.expectKind (normalName name) v kind
    (s, result.toOption)

/-! ## Registering -/

/-- The variable that is registered under a name, or a new one with the given value. -/
def obtain (s : State) (name : String) (kind : Kind) (value : Value) (description : String) :
    State × Except ConfigError VariableId :=
  let name := normalName name
  match s.names.lookup name with
  | some v => (s.emit (registeredRecord name)).expectKind name v kind
  | none =>
    if isValidName name then
      let (s, v) := s.add (.new name kind value description)
      ({ s with names := Keyed.insert name v s.names }, .ok v)
    else (s.emit (refusedRecord name), .error (.invalidName name))

/-! ## Documents from outside -/

/-- Applies a document that is a text. -/
def loadText (s : State) (format : Document.Format) (text : String) :
    State × Except ConfigError LoadReport :=
  match format.read text with
  | .error e => (s, .error (.document e))
  | .ok document =>
    let (s, r) := s.load document
    (s, .ok r)

/-- The record about a document that has been read. -/
def parsedRecord (format : Document.Format) (path : String) : Logging.Record where
  level := .debug
  target := "livelog::document"
  message := "parsed " ++ format.name ++ " document " ++ path
  file := "src/document/mod.rs"
  line := 30

/-- Reads the document of a file, in the format that its extension tells. -/
def readFile (s : State) (path : String) : State × Except Document.DocumentError Node :=
  match Document.Format.ofPath path with
  | .error e => (s, .error e)
  | .ok format =>
    match s.logging.files.read path with
    | .error _ => (s, .error .unreadable)
    | .ok bytes =>
      match format.readBytes bytes with
      | .error e => (s, .error e)
      | .ok document => (s.emit (parsedRecord format path), .ok document)

/-- Applies the document of a file. -/
def loadFile (s : State) (path : String) : State × Except ConfigError LoadReport :=
  match s.readFile path with
  | (s, .error e) => (s, .error (.document e))
  | (s, .ok document) =>
    let (s, r) := s.load document
    (s, .ok r)

end ConfigLog.Config.State
