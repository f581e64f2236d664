import Wiring.Classification
import Wiring.Placeholder
import Wiring.Text.Marked

/-!
Arguments of a constructor call in generated code. Each parameter is looked up in the registry,
takes the default it declares or a literal, or is left to the defaults of a struct literal.
-/
namespace Wiring.Accessor

open Text.Marked (fixed given)

inductive Source
  | lookup (dependency : Dependency)
  | declared (expr : String)
  | synthesized (literal : String)
  /-- A field that the literal does not mention. -/
  | omitted
deriving DecidableEq, Repr

structure Argument where
  name : String
  source : Source
deriving DecidableEq, Repr

/-- A field of a literal may be left out if it is not required and declares no default. -/
def source (style : Style) (managed : ManagedTypes) (heuristics : Bool) (p : Parameter) : Source :=
  match p.dependency? managed, p.default with
  | some d, _ => .lookup d
  | none, some expr => .declared expr
  | none, none =>
      if style = .literal ∧ p.required = false then .omitted
      else .synthesized (p.synthesized heuristics)

def argument (style : Style) (managed : ManagedTypes) (heuristics : Bool) (p : Parameter) :
    Argument :=
  ⟨p.name, source style managed heuristics p⟩

def lookupText (d : Dependency) : Text.Marked :=
  let call :=
    if d.policy.isAsync then
      fixed "registry.resolve_async::<" ++ given d.typeName ++ fixed ">().await?"
    else fixed "registry.resolve::<" ++ given d.typeName ++ fixed ">()?"
  if d.isNullable then fixed "Some(" ++ call ++ fixed ")" else call

def Source.text? : Source → Option Text.Marked
  | .lookup d => some (lookupText d)
  | .declared expr => some (given expr)
  | .synthesized literal => some (fixed literal)
  | .omitted => none

def Source.looked? : Source → Option String
  | .lookup d => some d.typeName
  | _ => none

end Wiring.Accessor
