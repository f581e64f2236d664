import Wiring.Json.Document

/-!
Shapes of documents: records and choices. A record is an object with known names, in any order and
among unknown ones, or the array of its fields; a choice is a word, or an object with that word as
its only name. Each container costs one level of the room that nesting has left.
-/
namespace Wiring.Json

/-- Reads a document that may still nest as many levels as the number says. -/
abbrev Reader (α : Type) := Nat → Json → Option α

def readText : Reader String
  | _, .text t => t
  | _, _ => none

def readBool : Reader Bool
  | _, .bool b => some b
  | _, _ => none

def readWord : Reader UInt32
  | _, .number n => n.toNat?.bind fun k => if k < UInt32.size then some (.ofNat k) else none
  | _, _ => none

def readOption {α : Type} (read : Reader α) : Reader (Option α)
  | _, .null => some none
  | room, d => (read room d).map some

def readList {α : Type} (read : Reader α) : Reader (List α)
  | room + 1, .array items => items.mapM (read room)
  | _, _ => none

/-- One of the words given, alone or as the only name of an object with the value null. -/
def readWordOf {α : Type} (words : List (String × α)) : Reader α
  | _, .text (some word) => words.lookup word
  | _ + 1, .object [(some word, .null)] => words.lookup word
  | _, _ => none

/-- The members of an object with one of the given names. -/
def known (names : List String) (members : List (Text × Json)) : List (Text × Json) :=
  members.filter fun m => m.1.any fun name => names.contains name

/-- The value of each named field, `none` where it is not given. Names have to be readable, and a
known one may not be repeated; an array gives its fields in the order of the names. -/
def fields (names : List String) : Json → Option (List (Option Json))
  | .array items =>
      if items.length ≤ names.length then
        some (items.map some ++ List.replicate (names.length - items.length) none)
      else none
  | .object members =>
      if members.all (fun m => m.1.isSome) ∧ ((known names members).map Prod.fst).Nodup then
        some (names.map fun name => members.lookup (some name))
      else none
  | _ => none

def required {α : Type} (read : Reader α) (room : Nat) (d : Option Json) : Option α :=
  d.bind (read room)

def defaulted {α : Type} (read : Reader α) (absent : α) (room : Nat) : Option Json → Option α
  | some d => read room d
  | none => some absent

/-- Reads a document that is given as a value, where nesting has no bound. -/
def readValue {α : Type} (read : Reader α) (d : Json) : Option α := read d.depth d

/-- How deep a document that is given as text may be nested. -/
def textRoom : Nat := 127

end Wiring.Json
