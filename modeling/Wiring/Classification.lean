import Wiring.Pass

/-!
Which parameters an accessor takes from the registry. A parameter is a dependency if its type is
managed; a nullable one has to have a default too, and is then passed wrapped.
-/
namespace Wiring

structure Dependency where
  typeName : String
  policy : Policy
  /-- Whether the parameter is nullable, so that the instance is passed as `Some`. -/
  isNullable : Bool
deriving DecidableEq, Repr

/-- The name by which a parameter asks for a type, and whether it may go without. -/
def Parameter.wanted? (p : Parameter) : Option (String × Bool) :=
  match p.type with
  | .named name => some (name, false)
  | .optional (.named name) => if p.default.isSome then some (name, true) else none
  | _ => none

/-- What a parameter depends on; `none` for a value. -/
def Parameter.dependency? (p : Parameter) (managed : ManagedTypes) : Option Dependency := do
  let (name, isNullable) ← p.wanted?
  let policy ← managed.find? name
  return ⟨name, policy, isNullable⟩

end Wiring
