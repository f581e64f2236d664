/-!
Bytes as text. A sequence of bytes that no character has is replaced by one replacement character
for each longest part that could have begun one.
-/
namespace Wiring.Text

/-- How many bytes follow the first of a character, and the range of the second one. -/
def leadByte (b : UInt8) : Option (Nat × UInt8 × UInt8) :=
  if b < 0x80 then some (0, 0, 0)
  else if 0xC2 ≤ b && b < 0xE0 then some (1, 0x80, 0xBF)
  else if b == 0xE0 then some (2, 0xA0, 0xBF)
  else if b == 0xED then some (2, 0x80, 0x9F)
  else if 0xE1 ≤ b && b < 0xF0 then some (2, 0x80, 0xBF)
  else if b == 0xF0 then some (3, 0x90, 0xBF)
  else if 0xF1 ≤ b && b < 0xF4 then some (3, 0x80, 0xBF)
  else if b == 0xF4 then some (3, 0x80, 0x8F)
  else none

/-- What is known of a character that has begun: its value so far, how many bytes are missing, and
the range of the next one. -/
structure Begun where
  value : Nat
  missing : Nat
  low : UInt8
  high : UInt8

/-- The byte `b` where no character has begun: what is written for it, and what begins. -/
def beginChar (b : UInt8) : List Char × Option Begun :=
  match leadByte b with
  | none => (['\uFFFD'], none)
  | some (0, _, _) => ([Char.ofNat b.toNat], none)
  | some (n + 1, low, high) =>
      let mask := if n = 0 then 0x1F else if n = 1 then 0x0F else 0x07
      ([], some ⟨b.toNat &&& mask, n + 1, low, high⟩)

def continueChar (s : Begun) (b : UInt8) : List Char × Option Begun :=
  if s.low ≤ b && b ≤ s.high then
    let value := s.value * 64 + (b.toNat &&& 0x3F)
    if s.missing ≤ 1 then ([Char.ofNat value], none)
    else ([], some ⟨value, s.missing - 1, 0x80, 0xBF⟩)
  else
    let next := beginChar b
    ('\uFFFD' :: next.1, next.2)

def decodeFrom : Option Begun → List UInt8 → List Char
  | none, [] => []
  | some _, [] => ['\uFFFD']
  | state, b :: rest =>
      let next := match state with
        | none => beginChar b
        | some s => continueChar s b
      next.1 ++ decodeFrom next.2 rest

def decodeLossy (bytes : List UInt8) : String := String.ofList (decodeFrom none bytes)

def decode? (bytes : List UInt8) : Option String := String.fromUTF8? ⟨bytes.toArray⟩

def encode (s : String) : List UInt8 := s.toUTF8.toList

end Wiring.Text
