import Wiring.Accessor.Rendering
import Wiring.Config
import Wiring.Generation.Error

/-!
The accessor of one class, or why it has none. A constructor has to be callable, and a class with a
plain policy may not depend on anything that has to be awaited.
-/
namespace Wiring

structure GeneratedAccessor where
  className : String
  function : String
  policy : Policy
  /-- The managed types that are looked up, in parameter order. -/
  dependencies : List String
  code : String
deriving DecidableEq, Repr

namespace Constructor

def unusable? (c : Constructor) : Option Unusable :=
  match c.style with
  | .function _ => none
  | .literal =>
      if c.isAsync || c.isFallible then some .literalEffect
      else (c.params.find? fun p => p.passing == .positional).map fun p => .positionalField p.name

end Constructor

namespace AnnotatedClass

/-- The first parameter that plain code cannot look up, with what it depends on. -/
def awaitedParameter? (managed : ManagedTypes) (params : List Parameter) :
    Option (String × String) :=
  params.findSome? fun p =>
    ((p.dependency? managed).filter fun d => d.policy.isAsync).map fun d => (p.name, d.typeName)

/-- The constructor that the accessor of a class calls, or why the class can have none. -/
def callable (c : AnnotatedClass) (managed : ManagedTypes) : Except GenerationFault Constructor :=
  match c.constructor with
  | none => .error (.noUsableConstructor .absent)
  | some constructor =>
      match constructor.unusable? with
      | some reason => .error (.noUsableConstructor reason)
      | none =>
          if c.policy.isAsync then .ok constructor
          else
            match awaitedParameter? managed constructor.params with
            | some (parameter, dependency) => .error (.asyncDependency parameter dependency)
            | none => .ok constructor

def subject (c : AnnotatedClass) (constructor : Constructor) (managed : ManagedTypes)
    (config : Config) : Accessor.Subject where
  className := c.name
  policy := c.policy
  constructor := constructor
  arguments := constructor.params.map
    (Accessor.argument constructor.style managed config.placeholderHeuristics)
  runtimeCrate := config.runtimeCrate

def accessor (c : AnnotatedClass) (managed : ManagedTypes) (config : Config) :
    Except GenerationError GeneratedAccessor :=
  match c.callable managed with
  | .ok constructor =>
      let s := c.subject constructor managed config
      .ok ⟨c.name, s.function, c.policy, s.looked, s.text.toString⟩
  | .error fault => .error ⟨c.name, c.location, fault⟩

end AnnotatedClass

end Wiring
