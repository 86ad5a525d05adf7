import ConfigLog.Text.Quoted

set_option autoImplicit false

/-! # Errors of the logging part -/

namespace ConfigLog.Logging

/-- Why an operation on loggers, appenders or definitions failed. -/
inductive LogError where
  /-- A pattern with a malformed directive. -/
  | malformedPattern (pattern : String)
  /-- The sink of an appender took nothing; the reason is the system's. -/
  | sinkFailed (reason : String)
  /-- A definition that is incomplete or inconsistent. -/
  | invalidDefinition (reason : String)
  | unknownLevel (text : String)
  deriving Repr

/-- The wording of the error. -/
def LogError.message : LogError → String
  | malformedPattern pattern => "invalid log pattern " ++ Text.quote pattern
  | sinkFailed reason => "sink write failed: " ++ reason
  | invalidDefinition reason => "invalid logger definition: " ++ reason
  | unknownLevel text => "unknown log level " ++ Text.quote text

end ConfigLog.Logging
