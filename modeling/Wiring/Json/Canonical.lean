import Wiring.Json.Document
import Wiring.Table

/-!
Documents with the members of every object in order of their names, each name once and with the
last of its values.
-/
namespace Wiring.Json

mutual

def canonical : Json → Json
  | .array items => .array (canonicalItems items)
  | .object members =>
      .object ((canonicalMembers members).entries.map fun e => (some e.1, e.2))
  | d => d

def canonicalItems : List Json → List Json
  | [] => []
  | d :: rest => d.canonical :: canonicalItems rest

def canonicalMembers : List (Text × Json) → Table Json
  | [] => .empty
  | m :: rest =>
      match m.1 with
      | some name => (canonicalMembers rest).insertNew name m.2.canonical
      | none => canonicalMembers rest

end

end Wiring.Json
