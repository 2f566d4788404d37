/-!
# Log

Notes for the person who runs programs, apart from what the programs print.
-/

namespace LineBasic

/-- How serious a note is. -/
inductive Severity where
  | debug
  | info
  | warning
  | error
deriving DecidableEq, Repr

/-- The word for a severity. -/
def Severity.word : Severity → String
  | .debug => "DEBUG"
  | .info => "INFO"
  | .warning => "WARNING"
  | .error => "ERROR"

/-- A note. -/
structure LogEntry where
  severity : Severity
  message : String
deriving DecidableEq, Repr

/-- The note as a line of the log, without the time. -/
def LogEntry.text (e : LogEntry) : String :=
  e.severity.word ++ ": " ++ e.message

/-- Whether the note is kept when debugging notes are left out. -/
def LogEntry.isKept (debug : Bool) (e : LogEntry) : Bool :=
  debug || e.severity ≠ .debug

end LineBasic
