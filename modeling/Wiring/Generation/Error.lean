import Wiring.Location

/-!
Why a class gets no accessor. Every error names the class and where it is declared; the wording is
in `GenerationError.message` alone.
-/
namespace Wiring

inductive Unusable
  | absent
  | literalEffect
  | positionalField (name : String)
  | because (reason : String)
deriving DecidableEq, Repr

def Unusable.message : Unusable → String
  | .absent => "no accessible constructor"
  | .literalEffect => "a struct literal cannot be async or fallible"
  | .positionalField name => "struct literal field `" ++ name ++ "` is positional"
  | .because reason => reason

inductive GenerationFault
  | noUsableConstructor (reason : Unusable)
  /-- A class with a plain policy takes a dependency that has to be awaited. -/
  | asyncDependency (parameter dependency : String)
  /-- Another class of the file has an accessor of that name already. -/
  | duplicateAccessor (function existing : String)
deriving DecidableEq, Repr

structure GenerationError where
  className : String
  location : Location
  fault : GenerationFault
deriving DecidableEq, Repr

def GenerationError.message (e : GenerationError) : String :=
  toString e.location ++ ": " ++
    match e.fault with
    | .noUsableConstructor reason =>
        e.className ++ " has no usable constructor: " ++ reason.message
    | .asyncDependency parameter dependency =>
        e.className ++ " has a sync policy but parameter `" ++ parameter
          ++ "` depends on async service " ++ dependency
    | .duplicateAccessor function existing =>
        "accessor `" ++ function ++ "` for " ++ e.className ++ " is already generated for "
          ++ existing ++ " in this file"

end Wiring
