import ConfigLog.Keyed
import ConfigLog.Logging.Reconcile
import ConfigLog.Value.Convert

set_option autoImplicit false

/-! # Programs of listeners

What a listener does when its variable changes is a program. A program is a tree: each instruction
goes on with a program for whatever comes of it, so that all that is done may depend on the change
and on everything that has been seen since. Programs use the variables that there are, whether or not
they are being changed. They make no new ones, and what is registered stays so.
-/

namespace ConfigLog.Config

/-- The number of a variable. -/
abbrev VariableId := Nat

/-- The number of a listener, which no other listener of any variable ever has. -/
abbrev ListenerId := Nat

/-! ## What a program is told -/

/-- What came of applying a document. -/
structure LoadReport where
  /-- The names whose variables changed. -/
  updated : List String := []
  /-- The names whose variables already had the value. -/
  unchanged : List String := []
  /-- The paths that are no names. -/
  invalid : List String := []
  /-- The names whose nodes could not be converted. -/
  failed : List (String × ConvertError) := []

namespace LoadReport

/-- The names of all settings that were applied. -/
def applied (r : LoadReport) : List String := r.updated ++ r.unchanged

/-- All paths were names, and no conversion failed. -/
def isClean (r : LoadReport) : Bool := r.invalid.isEmpty && r.failed.isEmpty

end LoadReport

/-- What can be seen of a variable. -/
structure Sight where
  name : String
  description : String
  kind : Kind
  value : Value
  /-- The numbers of the listeners, in order. -/
  listeners : List ListenerId

/-- What can be seen at a moment. -/
structure View where
  logging : Logging.State
  vars : Array Sight
  /-- The registered variables by their names, in ascending order. -/
  names : List (String × VariableId)
  /-- What listeners have noted for later. -/
  memory : List Value

/-! ## Programs -/

/-- What a listener does. -/
inductive Program where
  | done
  /-- Looks at everything. -/
  | look (next : View → Program)
  /-- Notes a value for later. -/
  | remember (note : Value) (next : Program)
  /-- Adds a listener to a variable. -/
  | listen (v : VariableId) (tag : Option String) (told : Value → Value → Program)
    (next : ListenerId → Program)
  /-- Looks at the value of a variable and adds a listener to it, with no change in between. -/
  | listenWith (v : VariableId) (init : Value → Program) (tag : Option String)
    (told : Value → Value → Program) (next : ListenerId → Program)
  /-- Removes a listener from a variable. -/
  | unlisten (v : VariableId) (i : ListenerId) (next : Bool → Program)
  /-- Removes all listeners from a variable. -/
  | unlistenAll (v : VariableId) (next : Program)
  /-- Sets a variable. -/
  | assign (v : VariableId) (value : Value) (next : Bool → Program)
  /-- Applies a document. -/
  | load (document : Node) (next : LoadReport → Program)
  /-- Does something to loggers. -/
  | turn (t : Logging.Turn) (next : Program)

/-- A listener. -/
structure Listener where
  /-- What tells the calls of this listener from those of others. -/
  tag : Option String := none
  /-- What it does when it is told of a change from an old to a new value. -/
  told : Value → Value → Program := fun _ _ => .done

end ConfigLog.Config
