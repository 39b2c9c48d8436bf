/-!
# Log — lines for the log

What the tracer reports while it works is a list of lines, each with the importance it is reported
at.
-/

namespace Unwind

inductive LogLevel where
  | debug
  | warn
deriving DecidableEq, Repr

def LogLevel.name : LogLevel → String
  | debug => "DEBUG"
  | warn => "WARN"

structure LogLine where
  level : LogLevel
  text : String
deriving DecidableEq, Repr

/-- The line with its level in front. -/
def LogLine.render (l : LogLine) : String :=
  l.level.name ++ " " ++ l.text

end Unwind
