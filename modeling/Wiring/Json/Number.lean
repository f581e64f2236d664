/-!
Number literals and their magnitude. A literal is measured by as many of its leading digits as fit
64 bits and the power of ten they stand for, each rounded to a double; it is in range if the
product of the two rounds to a finite double.
-/
namespace Wiring.Json

/-- A number literal: its digits before the point, after it where there is one, and its exponent. -/
structure Number where
  negative : Bool
  whole : Nat
  fraction : Option (List Char)
  exponent : Option Int
deriving DecidableEq, Repr

namespace Number

/-- The number a literal stands for, where that is a natural number written with digits alone. -/
def toNat? (n : Number) : Option Nat :=
  match n with
  | ⟨false, whole, none, none⟩ => some whole
  | _ => none

/-- Adds digits to the end of `m` as long as the result fits 64 bits; what is made, and the digits
that were left. -/
def takeDigits (m : Nat) : List Char → Nat × List Char
  | [] => (m, [])
  | c :: rest =>
      let longer := m * 10 + (c.toNat - '0'.toNat)
      if longer < UInt64.size then takeDigits longer rest else (m, c :: rest)

/-- The leading digits of a literal as a number, and the power of ten it is multiplied by. -/
def scaled (n : Number) : Nat × Int :=
  let fraction := n.fraction.getD []
  let (m, dropped) := takeDigits 0 (Nat.toDigits 10 n.whole)
  let (m, unread) := takeDigits m fraction
  (m, dropped.length - (fraction.length - unread.length : Nat) + n.exponent.getD 0)

/-- The nearest number with at most 53 binary digits, of two the one with an even last digit. -/
def roundDouble (n : Nat) : Nat :=
  let unit := Nat.pow 2 (n.log2 - 52)
  let rest := 2 * (n % unit)
  if unit < rest ∨ (rest = unit ∧ n / unit % 2 = 1) then (n / unit + 1) * unit
  else n / unit * unit

/-- One half unit above the largest double, from where on a magnitude rounds to infinity. -/
def bound : Nat := Nat.pow 2 1024 - Nat.pow 2 970

/-- The largest power of ten that is a double. -/
def maxExponent : Nat := 308

/-- Whether the magnitude of a literal is that of a double. -/
def inRange (n : Number) : Bool :=
  let (m, exponent) := n.scaled
  if m = 0 ∨ exponent ≤ 0 then true
  else if maxExponent < exponent then false
  else decide (roundDouble m * roundDouble (Nat.pow 10 exponent.toNat) < bound)

end Number

end Wiring.Json
