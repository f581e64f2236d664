import Wiring.Policy

/-!
What can go wrong when a service is registered or resolved. Each cause keeps what its message
tells; the wording is in `ResolveError.message` alone.
-/
namespace Wiring

def Mode.entryPoint : Mode → String
  | .sync => "get_or_register"
  | .async => "get_or_register_async"

inductive ResolveError
  /-- A policy of the one mode reached the entry point of the other. -/
  | policyMismatch (service : String) (policy : Policy) (entry : Mode)
  | notRegistered (service : String)
  /-- The stored instance is of another service. -/
  | typeMismatch (service : String)
  /-- The services being resolved, outermost first, and the one asked for again. -/
  | circular (path : List String)
  | depthExceeded (depth : Nat)
  /-- A plain read would wait for awaited work on the only thread that can do it. -/
  | blockingInAsyncContext (service : String)
  | producer (reason : String)
deriving DecidableEq, Repr

namespace ResolveError

def message : ResolveError → String
  | policyMismatch service policy entry =>
      "Policy mismatch for " ++ service ++ ": " ++ policy.name ++ " cannot be registered through "
        ++ entry.entryPoint
  | notRegistered service => "Service not registered: " ++ service
  | typeMismatch service => "Type mismatch for: " ++ service
  | circular path => "Circular dependency: " ++ String.intercalate " -> " path
  | depthExceeded depth => "Max depth " ++ toString depth ++ " exceeded"
  | blockingInAsyncContext service =>
      "Cannot block on async resolution of " ++ service ++ " inside a current-thread runtime"
  | producer reason => "Producer failed: " ++ reason

instance : ToString ResolveError := ⟨message⟩

/-- A failure of a producer that passes on the message of another error. -/
def wrapped (e : ResolveError) : ResolveError := .producer e.message

end ResolveError

end Wiring
