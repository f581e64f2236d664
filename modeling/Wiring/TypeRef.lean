import Wiring.Json.Shape

/-!
Declared parameter types and how generated code spells them. In documents a type is a kind and,
for the kinds that need one, a content.
-/
namespace Wiring

inductive TypeRef
  | text
  | integer
  | float
  | boolean
  | sequence (item : TypeRef)
  | mapping (key value : TypeRef)
  | set (item : TypeRef)
  | duration
  | timestamp
  | uri
  | pattern
  | dynamic
  | void
  | null
  /-- A bare type parameter. -/
  | generic (name : String)
  /-- A user type, written the way generated code should name it. -/
  | named (name : String)
  /-- The nullable marker. -/
  | optional (inner : TypeRef)
deriving DecidableEq, Repr

namespace TypeRef

def isStringLike : TypeRef → Bool
  | .text | .uri => true
  | _ => false

def spelling : TypeRef → String
  | .text | .uri | .pattern => "String"
  | .integer => "i64"
  | .float => "f64"
  | .boolean => "bool"
  | .sequence item => "Vec<" ++ item.spelling ++ ">"
  | .mapping key value =>
      "::std::collections::HashMap<" ++ key.spelling ++ ", " ++ value.spelling ++ ">"
  | .set item => "::std::collections::HashSet<" ++ item.spelling ++ ">"
  | .duration => "::std::time::Duration"
  | .timestamp => "::std::time::SystemTime"
  | .dynamic => "Box<dyn ::std::any::Any + Send + Sync>"
  | .void => "()"
  | .null => "Option<()>"
  | .generic name | .named name => name
  | .optional inner => "Option<" ++ inner.spelling ++ ">"

inductive Kind
  | plain (type : TypeRef)
  | ofType (make : TypeRef → TypeRef)
  | ofPair (make : TypeRef → TypeRef → TypeRef)
  | ofName (make : String → TypeRef)

def kinds : List (String × Kind) :=
  [("text", .plain .text), ("integer", .plain .integer), ("float", .plain .float),
    ("boolean", .plain .boolean), ("sequence", .ofType .sequence), ("mapping", .ofPair .mapping),
    ("set", .ofType .set), ("duration", .plain .duration), ("timestamp", .plain .timestamp),
    ("uri", .plain .uri), ("pattern", .plain .pattern), ("dynamic", .plain .dynamic),
    ("void", .plain .void), ("null", .plain .null), ("generic", .ofName .generic),
    ("named", .ofName .named), ("optional", .ofType .optional)]

/-- The kind in an object. Inside a content that was held back it may also be the only name of an
object with an empty object. -/
def readKind (held : Bool) : Json.Reader Kind
  | _ + 1, .object [(some word, .object [])] => if held then kinds.lookup word else none
  | room, d => Json.readWordOf kinds room d

/-- The kind in front of an array. Inside a content that was held back it may also be the place of
the kind among all kinds. -/
def readLeadingKind (held : Bool) : Json → Option Kind
  | .text (some word) => kinds.lookup word
  | .number n => if held then n.toNat?.bind fun i => kinds[i]?.map Prod.snd else none
  | _ => none

/-- Whether the content of an object stands before the kind. It is held back then until the kind is
known, and has to be sound. -/
def contentFirst (members : List (Json.Text × Json)) : Bool :=
  ((Json.known ["kind", "of"] members).head?.map Prod.fst) == some (some "of")

/-- The kind and the content of a document, and whether the content was held back; `held` says that
the document itself was. -/
def parts (held : Bool) (room : Nat) : Json → Option (Kind × Option Json × Bool)
  | .array [kind, content] => (readLeadingKind held kind).map fun k => (k, some content, held)
  | .object members =>
      match Json.fields ["kind", "of"] (.object members) with
      | some [some kind, content] =>
          if contentFirst members ∧ ¬content.all (·.sound room) then none
          else
            (readKind held room kind).map fun k => (k, content, held || contentFirst members)
      | _ => none
  | _ => none

mutual

def readWith (held : Bool) : (room : Nat) → Json → Option TypeRef
  | 0, _ => none
  | room + 1, d =>
      match parts held room d with
      | some (.plain t, none, _) | some (.plain t, some .null, _) => some t
      | some (.ofType make, some d, held) => (readWith held room d).map make
      | some (.ofPair make, some d, held) =>
          (readPair held room d).map fun p => make p.1 p.2
      | some (.ofName make, some d, _) => (Json.readText room d).map make
      | _ => none

def readPair (held : Bool) : (room : Nat) → Json → Option (TypeRef × TypeRef)
  | room + 1, .array [a, b] => do return (← readWith held room a, ← readWith held room b)
  | _, _ => none

end

def read : Json.Reader TypeRef := readWith false

def writeKind (kind : String) (content : Json) : Json :=
  .ofFields [("kind", .ofString kind), ("of", content)]

def write : TypeRef → Json
  | .text => .ofFields [("kind", .ofString "text")]
  | .integer => .ofFields [("kind", .ofString "integer")]
  | .float => .ofFields [("kind", .ofString "float")]
  | .boolean => .ofFields [("kind", .ofString "boolean")]
  | .sequence item => writeKind "sequence" item.write
  | .mapping key value => writeKind "mapping" (.array [key.write, value.write])
  | .set item => writeKind "set" item.write
  | .duration => .ofFields [("kind", .ofString "duration")]
  | .timestamp => .ofFields [("kind", .ofString "timestamp")]
  | .uri => .ofFields [("kind", .ofString "uri")]
  | .pattern => .ofFields [("kind", .ofString "pattern")]
  | .dynamic => .ofFields [("kind", .ofString "dynamic")]
  | .void => .ofFields [("kind", .ofString "void")]
  | .null => .ofFields [("kind", .ofString "null")]
  | .generic name => writeKind "generic" (.ofString name)
  | .named name => writeKind "named" (.ofString name)
  | .optional inner => writeKind "optional" inner.write

end TypeRef

end Wiring
