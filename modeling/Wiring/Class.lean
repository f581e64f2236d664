import Wiring.Constructor
import Wiring.Location
import Wiring.Policy

/-!
Classes that carry the registration directive. A class is identified by its file and its name; a
directive that names no policy asks for the default one.
-/
namespace Wiring

namespace Policy

def words : List (String × Policy) := all.map fun p => (p.name, p)

def read : Json.Reader Policy := Json.readWordOf words

def write (p : Policy) : Json := .ofString p.name

end Policy

structure Directive where
  policy : Option Policy
  location : Location
deriving DecidableEq, Repr

namespace Directive

def silent : Directive := ⟨none, .nowhere⟩

def fieldNames : List String := ["policy", "location"]

def read : Json.Reader Directive
  | room + 1, d =>
      match Json.fields fieldNames d with
      | some [policy, location] => do
          return ⟨← Json.defaulted (Json.readOption Policy.read) none room policy,
            ← Json.defaulted Location.read .nowhere room location⟩
      | _ => none
  | _, _ => none

def write (d : Directive) : Json :=
  .ofFields [("policy", .ofOption Policy.write d.policy), ("location", d.location.write)]

end Directive

structure ClassId where
  file : String
  name : String
deriving DecidableEq, Repr

def ClassId.le (a b : ClassId) : Bool := a.file < b.file || (a.file == b.file && a.name ≤ b.name)

structure AnnotatedClass where
  name : String
  location : Location
  directive : Directive
  /-- `none` where introspection found nothing to call. -/
  constructor : Option Constructor
deriving DecidableEq, Repr

namespace AnnotatedClass

def policy (c : AnnotatedClass) : Policy := c.directive.policy.getD default

def id (c : AnnotatedClass) : ClassId := ⟨c.location.file, c.name⟩

def fieldNames : List String := ["name", "location", "annotation", "constructor"]

def read : Json.Reader AnnotatedClass
  | room + 1, d =>
      match Json.fields fieldNames d with
      | some [name, location, directive, constructor] => do
          return {
            name := ← Json.required Json.readText room name
            location := ← Json.required Location.read room location
            directive := ← Json.defaulted Directive.read .silent room directive
            constructor :=
              ← Json.defaulted (Json.readOption Constructor.read) none room constructor }
      | _ => none
  | _, _ => none

def write (c : AnnotatedClass) : Json :=
  .ofFields [("name", .ofString c.name), ("location", c.location.write),
    ("annotation", c.directive.write), ("constructor", .ofOption Constructor.write c.constructor)]

end AnnotatedClass

end Wiring
