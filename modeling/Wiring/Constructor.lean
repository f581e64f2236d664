import Wiring.TypeRef

/-!
Constructors as introspection found them: how they are called and with what parameters.
-/
namespace Wiring

inductive Passing
  | positional
  | named
deriving DecidableEq, Repr

structure Parameter where
  name : String
  type : TypeRef
  passing : Passing
  required : Bool
  /-- An expression that generated code takes over as it is. -/
  default : Option String
deriving DecidableEq, Repr

inductive Style
  /-- A function of the class, its arguments in declaration order. -/
  | function (name : String)
  | literal
deriving DecidableEq, Repr

structure Constructor where
  style : Style
  isAsync : Bool
  isFallible : Bool
  params : List Parameter
deriving DecidableEq, Repr

namespace Passing

def words : List (String × Passing) := [("positional", .positional), ("named", .named)]

def read : Json.Reader Passing := Json.readWordOf words

def write : Passing → Json
  | .positional => .ofString "positional"
  | .named => .ofString "named"

end Passing

namespace Parameter

def fieldNames : List String := ["name", "ty", "kind", "required", "default"]

def read : Json.Reader Parameter
  | room + 1, d =>
      match Json.fields fieldNames d with
      | some [name, type, passing, required, default] => do
          return {
            name := ← Json.required Json.readText room name
            type := ← Json.required TypeRef.read room type
            passing := ← Json.required Passing.read room passing
            required := ← Json.required Json.readBool room required
            default := ← Json.defaulted (Json.readOption Json.readText) none room default }
      | _ => none
  | _, _ => none

def write (p : Parameter) : Json :=
  .ofFields [("name", .ofString p.name), ("ty", p.type.write), ("kind", p.passing.write),
    ("required", .bool p.required), ("default", .ofOption .ofString p.default)]

end Parameter

namespace Style

def read : Json.Reader Style
  | room + 1, .object [(some "function", d)] => (Json.readText room d).map .function
  | room, d => Json.readWordOf [("struct_literal", .literal)] room d

def write : Style → Json
  | .function name => .ofFields [("function", .ofString name)]
  | .literal => .ofString "struct_literal"

end Style

namespace Constructor

def fieldNames : List String := ["style", "is_async", "is_fallible", "params"]

def read : Json.Reader Constructor
  | room + 1, d =>
      match Json.fields fieldNames d with
      | some [style, isAsync, isFallible, params] => do
          return {
            style := ← Json.required Style.read room style
            isAsync := ← Json.defaulted Json.readBool false room isAsync
            isFallible := ← Json.defaulted Json.readBool false room isFallible
            params := ← Json.required (Json.readList Parameter.read) room params }
      | _ => none
  | _, _ => none

def write (c : Constructor) : Json :=
  .ofFields [("style", c.style.write), ("is_async", .bool c.isAsync),
    ("is_fallible", .bool c.isFallible), ("params", .array (c.params.map Parameter.write))]

end Constructor

end Wiring
