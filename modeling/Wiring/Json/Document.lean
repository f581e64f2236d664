import Wiring.Json.Number

/-!
JSON documents as written: object members keep their order and repetitions, numbers keep their
literal, and a text with an unpaired surrogate escape is kept as unreadable. What a reader makes of
these is left to the reader.
-/
namespace Wiring

/-- A text, or `none` where an escape in it names half of a surrogate pair. -/
abbrev Json.Text := Option String

inductive Json
  | null
  | bool (value : Bool)
  | number (value : Json.Number)
  | text (value : Json.Text)
  | array (items : List Json)
  | object (members : List (Json.Text × Json))
deriving Repr

namespace Json

instance : Inhabited Json := ⟨.null⟩

def ofNat (n : Nat) : Json := .number ⟨false, n, none, none⟩

def ofString (s : String) : Json := .text (some s)

def ofFields (fields : List (String × Json)) : Json := .object (fields.map fun f => (some f.1, f.2))

def ofOption {α : Type} (write : α → Json) : Option α → Json
  | some a => write a
  | none => .null

mutual

def depth : Json → Nat
  | .array items => depthOfItems items + 1
  | .object members => depthOfMembers members + 1
  | _ => 0

def depthOfItems : List Json → Nat
  | [] => 0
  | d :: rest => max d.depth (depthOfItems rest)

def depthOfMembers : List (Text × Json) → Nat
  | [] => 0
  | m :: rest => max m.2.depth (depthOfMembers rest)

end

mutual

/-- Whether a document is readable throughout: texts and names are whole, numbers fit a double, and
nothing is nested deeper than `room`. -/
def sound : (room : Nat) → Json → Bool
  | _, .null | _, .bool _ => true
  | _, .number n => n.inRange
  | _, .text t => t.isSome
  | 0, .array _ | 0, .object _ => false
  | room + 1, .array items => soundItems room items
  | room + 1, .object members => soundMembers room members

def soundItems : Nat → List Json → Bool
  | _, [] => true
  | room, d :: rest => d.sound room && soundItems room rest

def soundMembers : Nat → List (Text × Json) → Bool
  | _, [] => true
  | room, m :: rest => m.1.isSome && m.2.sound room && soundMembers room rest

end

def field? (name : String) : Json → Option Json
  | .object members => (members.reverse.lookup (some name))
  | _ => none

end Json

end Wiring
