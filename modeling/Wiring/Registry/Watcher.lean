import Wiring.Registry.Entry

/-!
Observers of a registry: silent ones, recorders, and loggers that print a line for each notice.
Failures of producers are printed apart from everything else.
-/
namespace Wiring.Registry

inductive Watcher
  | silent
  | recorder (name : String)
  | logger (tag : String)
deriving DecidableEq, Repr

def defaultTag : String := "[ferrous-autowire]"

inductive Stream
  | output
  | failures
deriving DecidableEq, Repr

/-- The line that a logger prints; `elapsed` is how long the run took, as text. -/
def Notice.line (tag elapsed : String) : Notice → Stream × String
  | .registered key policy => (.output, tag ++ " Registered: " ++ key.name ++ " as " ++ policy.name)
  | .producing key => (.output, tag ++ " Producing: " ++ key.name)
  | .produced key => (.output, tag ++ " Produced: " ++ key.name ++ " in " ++ elapsed)
  | .failed key e =>
      (.failures, tag ++ " PRODUCER FAILED for " ++ key.name ++ ": " ++ e.message)
  | .reset dropped => (.output, tag ++ " Reset: " ++ toString dropped ++ " entries cleared")

end Wiring.Registry
