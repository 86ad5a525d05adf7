import ConfigLog.Config.Flatten
import ConfigLog.Config.State
import ConfigLog.Tree.Display

set_option autoImplicit false

/-! # Applying documents

A document is applied setting by setting: each setting whose name is registered is converted to the
kind of its variable and assigned. One that cannot be converted leaves its variable as it is and
stops nothing. How a variable is assigned is a parameter here, because listeners may apply documents
themselves.
-/

namespace ConfigLog.Config

/-- Setting a variable; the result tells whether its value changed. -/
abbrev Assign := State → VariableId → Value → State × Bool

namespace State

/-! ## Settings from outside -/

/-- The record about a value that could not be converted. -/
def conversionRecord (x : Variable) (attempt : String) (e : ConvertError) : Logging.Record where
  level := .error
  target := "livelog::config::var"
  message := "config " ++ x.name ++ ": cannot " ++ attempt ++ " " ++ x.kind.typeName ++ ": "
    ++ e.message.getD "yaml error"
  file := "src/config/var.rs"
  line := 168

/-- Sets a variable to what has been read for it, or reports why it could not be read. -/
def assignRead (assign : Assign) (s : State) (v : VariableId) (x : Variable) (attempt : String)
    (result : Except ConvertError Value) : State × Except ConvertError Bool :=
  match result with
  | .error e => (s.emit (conversionRecord x attempt e), .error e)
  | .ok value =>
    let (s, changed) := assign s v value
    (s, .ok changed)

/-- Sets a variable from a document node. -/
def assignNode (assign : Assign) (s : State) (v : VariableId) (n : Node) :
    State × Except ConvertError Bool :=
  match s.vars[v]? with
  | none => (s, .ok false)
  | some x => s.assignRead assign v x "convert node into" (x.kind.ofNode n)

/-- Sets a variable from a text. -/
def assignText (assign : Assign) (s : State) (v : VariableId) (text : String) :
    State × Except ConvertError Bool :=
  match s.vars[v]? with
  | none => (s, .ok false)
  | some x => s.assignRead assign v x "parse text into" (x.kind.ofText text)

/-! ## Documents -/

/-- The record about a part of a document that is passed over. -/
def findingRecord? : Finding → Option Logging.Record
  | .setting .. => none
  | .invalid path => some {
      level := .error
      target := "livelog::config::loader"
      message := "config key " ++ Text.quote path ++ " is invalid, skipping it"
      file := "src/config/loader.rs"
      line := 89 }
  | .unnamed path key => some {
      level := .warn
      target := "livelog::config::loader"
      message := "skipping non-scalar document key under " ++ Text.quote path ++ ": "
        ++ key.display
      file := "src/config/loader.rs"
      line := 77 }

/-- Applies one setting. -/
def applySetting (assign : Assign) (done : State × LoadReport) (setting : String × Node) :
    State × LoadReport :=
  let (s, r) := done
  let (name, node) := setting
  match s.names.lookup name with
  | none => (s, r)
  | some v =>
    match s.assignNode assign v node with
    | (s, .ok true) => (s, { r with updated := r.updated ++ [name] })
    | (s, .ok false) => (s, { r with unchanged := r.unchanged ++ [name] })
    | (s, .error e) => (s, { r with failed := r.failed ++ [(name, e)] })

/-- The record about an applied document. -/
def appliedRecord (r : LoadReport) : Logging.Record where
  level := .debug
  target := "livelog::config::loader"
  message := "document applied: " ++ count r.updated.length ++ " updated, "
    ++ count r.unchanged.length ++ " unchanged, " ++ count r.invalid.length ++ " invalid, "
    ++ count r.failed.length ++ " failed"
  file := "src/config/loader.rs"
  line := 128
where
  /-- The digits of a number. -/
  count (n : Nat) : String := String.ofList (Number.natText n)

/-- Applies a document. -/
def loadWith (assign : Assign) (s : State) (document : Node) : State × LoadReport :=
  let s := ((findings document).filterMap findingRecord?).foldl emit s
  let (s, r) := (flatten document).foldl (applySetting assign)
    (s, { invalid := invalidPaths document })
  (s.emit (appliedRecord r), r)

end State

end ConfigLog.Config
