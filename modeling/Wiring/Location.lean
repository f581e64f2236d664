import Wiring.Json.Shape

/-!
Positions in source files. Locations are ordered by file, line and column, files by their
characters.
-/
namespace Wiring

structure Location where
  file : String
  line : UInt32
  column : UInt32
deriving DecidableEq, Repr

namespace Location

def nowhere : Location := ⟨"", 0, 0⟩

instance : Inhabited Location := ⟨nowhere⟩

instance : ToString Location where
  toString l := l.file ++ ":" ++ toString l.line.toNat ++ ":" ++ toString l.column.toNat

def le (a b : Location) : Bool :=
  a.file < b.file
    || (a.file == b.file && (a.line < b.line || (a.line == b.line && a.column ≤ b.column)))

def fieldNames : List String := ["file", "line", "column"]

def read : Json.Reader Location
  | room + 1, d =>
      match Json.fields fieldNames d with
      | some [file, line, column] => do
          return ⟨← Json.required Json.readText room file, ← Json.required Json.readWord room line,
            ← Json.required Json.readWord room column⟩
      | _ => none
  | _, _ => none

def write (l : Location) : Json :=
  .ofFields [("file", .ofString l.file), ("line", .ofNat l.line.toNat),
    ("column", .ofNat l.column.toNat)]

end Location

end Wiring
