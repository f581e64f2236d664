import Wiring.Registry.Entry

/-!
The resolution trail of one client, the names it is resolving. Awaited entries replace the task
part as a whole, plain ones push and pop on the stack that follows it; a new entry is checked
against the two of them together.
-/
namespace Wiring.Registry

/-- How many resolutions may be under way at once. -/
def maxDepth : Nat := 1024

/-- What one client keeps for itself, outermost resolution first. -/
structure Trail where
  task : List String
  stack : List String
deriving DecidableEq, Repr

namespace Trail

def empty : Trail := ⟨[], []⟩

def names (t : Trail) : List String := t.task ++ t.stack

/-- Why `name` may not be entered: it is being resolved already, or too much is. -/
def refusal? (t : Trail) (name : String) : Option ResolveError :=
  if name ∈ t.names then some (.circular (t.names ++ [name]))
  else if maxDepth ≤ t.names.length then some (.depthExceeded t.names.length)
  else none

/-- The trail inside an entry: a plain one pushes its name, an awaited one makes the whole trail
with its name the new task trail. -/
def enter (t : Trail) (name : String) : Mode → Trail
  | .sync => { t with stack := t.stack ++ [name] }
  | .async => { t with task := t.names ++ [name] }

/-- The trail after an entry. A plain one takes its own name off the stack, and nothing else; an
awaited one puts back the task trail it found. -/
def leave? (t : Trail) (name : String) (before : List String) : Mode → Option Trail
  | .sync =>
      if t.stack.getLast? = some name then some { t with stack := t.stack.dropLast } else none
  | .async => some { t with task := before }

end Trail

end Wiring.Registry
