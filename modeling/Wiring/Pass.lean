import Wiring.Class
import Wiring.Table

/-!
Build passes: the classes that one run of the generator sees, and the types managed elsewhere. The
managed types of a pass are its own classes, the first of a name first, and then the others.
-/
namespace Wiring

/-- The types that may be wired as dependencies, with their policies. -/
abbrev ManagedTypes := Table Policy

namespace ManagedTypes

def ofClasses (classes : List AnnotatedClass) : ManagedTypes :=
  classes.foldl (fun managed c => managed.insertNew c.name c.policy) .empty

/-- A name that is given repeatedly keeps its last policy. -/
def read : Json.Reader ManagedTypes
  | room + 1, .object members =>
      members.foldlM (fun managed m => do
        return managed.insert (← m.1) (← Policy.read room m.2)) .empty
  | _, _ => none

def write (managed : ManagedTypes) : Json :=
  .ofFields (managed.entries.map fun e => (e.1, e.2.write))

end ManagedTypes

structure BuildPass where
  classes : List AnnotatedClass
  /-- Types managed outside this pass. -/
  external : ManagedTypes
deriving DecidableEq

namespace BuildPass

def managed (p : BuildPass) : ManagedTypes := (ManagedTypes.ofClasses p.classes).extend p.external

def fieldNames : List String := ["classes", "external"]

def read : Json.Reader BuildPass
  | room + 1, d =>
      match Json.fields fieldNames d with
      | some [classes, external] => do
          return ⟨← Json.required (Json.readList AnnotatedClass.read) room classes,
            ← Json.defaulted ManagedTypes.read .empty room external⟩
      | _ => none
  | _, _ => none

def write (p : BuildPass) : Json :=
  .ofFields [("classes", .array (p.classes.map AnnotatedClass.write)),
    ("external", p.external.write)]

end BuildPass

end Wiring
