/-! What is logged. Records are values that operations hand back in the order in which they
arose; writing them anywhere is up to the caller. -/

namespace QueryAdmission

/-- How loud a log record is. -/
inductive LogLevel where
  | info
  | warning
  deriving DecidableEq, Repr

/-- One line of a log. -/
structure LogRecord where
  level : LogLevel
  logger : String
  message : String
  deriving DecidableEq, Repr

end QueryAdmission
