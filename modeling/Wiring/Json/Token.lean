import Wiring.Json.Document

/-!
Tokens of JSON text. `Token.scan` splits a text into its tokens, or refuses it where no token
starts; `Token.spell` writes a token.
-/
namespace Wiring.Json

inductive Token
  | openArray
  | closeArray
  | openObject
  | closeObject
  | comma
  | colon
  | null
  | bool (value : Bool)
  | number (value : Number)
  | text (value : Text)
deriving DecidableEq, Repr

/-- A piece of a text: a character, or a code unit that an escape names. -/
inductive Piece
  | char (c : Char)
  | unit (n : Nat)
deriving DecidableEq, Repr

namespace Piece

def isHigh (n : Nat) : Bool := 0xD800 ≤ n && n < 0xDC00

def isLow (n : Nat) : Bool := 0xDC00 ≤ n && n < 0xE000

/-- Joins surrogate pairs, refusing a surrogate that stands alone. -/
def join : List Piece → Option (List Char)
  | [] => some []
  | .char c :: rest => (join rest).map (c :: ·)
  | .unit h :: .unit l :: rest =>
      if isHigh h then
        if isLow l then
          (join rest).map (Char.ofNat (0x10000 + (h - 0xD800) * 0x400 + (l - 0xDC00)) :: ·)
        else none
      else if isLow h then none
      else (join (.unit l :: rest)).map (Char.ofNat h :: ·)
  | .unit h :: rest =>
      if isHigh h || isLow h then none else (join rest).map (Char.ofNat h :: ·)

end Piece

def hexDigit? (c : Char) : Option Nat :=
  if '0' ≤ c ∧ c ≤ '9' then some (c.toNat - '0'.toNat)
  else if 'a' ≤ c ∧ c ≤ 'f' then some (c.toNat - 'a'.toNat + 10)
  else if 'A' ≤ c ∧ c ≤ 'F' then some (c.toNat - 'A'.toNat + 10)
  else none

def hexUnit? (a b c d : Char) : Option Nat := do
  return (((← hexDigit? a) * 16 + (← hexDigit? b)) * 16 + (← hexDigit? c)) * 16 + (← hexDigit? d)

/-- The characters with an escape of two characters, each with the letter it is escaped by. -/
def shortEscapes : List (Char × Char) :=
  [('"', '"'), ('\\', '\\'), ('/', '/'), ('b', '\x08'), ('f', '\x0c'), ('n', '\n'), ('r', '\r'),
    ('t', '\t')]

/-- Reads a text after its opening quote, up to and with the closing one. Control characters have
to be escaped. -/
def scanText : List Char → Option (List Piece × List Char)
  | [] => none
  | '"' :: rest => some ([], rest)
  | '\\' :: 'u' :: a :: b :: c :: d :: rest => do
      let n ← hexUnit? a b c d
      let (pieces, rest) ← scanText rest
      return (.unit n :: pieces, rest)
  | '\\' :: e :: rest => do
      let c ← shortEscapes.lookup e
      let (pieces, rest) ← scanText rest
      return (.char c :: pieces, rest)
  | c :: rest =>
      if c = '\\' ∨ c.toNat < 0x20 then none
      else do
        let (pieces, rest) ← scanText rest
        return (.char c :: pieces, rest)

def spanDigits : List Char → List Char × List Char
  | [] => ([], [])
  | c :: rest =>
      if c.isDigit then (c :: (spanDigits rest).1, (spanDigits rest).2) else ([], c :: rest)

def digitsValue (ds : List Char) : Nat :=
  ds.foldl (fun acc c => acc * 10 + (c.toNat - '0'.toNat)) 0

def scanWhole : List Char → Option (Nat × List Char)
  | '0' :: rest => some (0, rest)
  | cs =>
      match spanDigits cs with
      | ([], _) => none
      | (ds, rest) => some (digitsValue ds, rest)

def scanFraction : List Char → Option (Option (List Char) × List Char)
  | '.' :: cs =>
      match spanDigits cs with
      | ([], _) => none
      | (ds, rest) => some (some ds, rest)
  | cs => some (none, cs)

def scanPower (negative : Bool) (cs : List Char) : Option (Option Int × List Char) :=
  match spanDigits cs with
  | ([], _) => none
  | (ds, rest) => some (some (if negative then -(digitsValue ds : Int) else digitsValue ds), rest)

def scanSignedPower : List Char → Option (Option Int × List Char)
  | '-' :: cs => scanPower true cs
  | '+' :: cs => scanPower false cs
  | cs => scanPower false cs

def scanExponent : List Char → Option (Option Int × List Char)
  | 'e' :: cs | 'E' :: cs => scanSignedPower cs
  | cs => some (none, cs)

def scanUnsigned (negative : Bool) (cs : List Char) : Option (Number × List Char) := do
  let (whole, cs) ← scanWhole cs
  let (fraction, cs) ← scanFraction cs
  let (exponent, cs) ← scanExponent cs
  return (⟨negative, whole, fraction, exponent⟩, cs)

def scanNumber : List Char → Option (Number × List Char)
  | '-' :: cs => scanUnsigned true cs
  | cs => scanUnsigned false cs

/-- JSON knows four blank characters. -/
def isBlank (c : Char) : Bool := c == ' ' || c == '\t' || c == '\n' || c == '\r'

/-- The token at the start of a text that is not blank there. -/
def scanToken : List Char → Option (Token × List Char)
  | '[' :: rest => some (.openArray, rest)
  | ']' :: rest => some (.closeArray, rest)
  | '{' :: rest => some (.openObject, rest)
  | '}' :: rest => some (.closeObject, rest)
  | ',' :: rest => some (.comma, rest)
  | ':' :: rest => some (.colon, rest)
  | 'n' :: 'u' :: 'l' :: 'l' :: rest => some (.null, rest)
  | 't' :: 'r' :: 'u' :: 'e' :: rest => some (.bool true, rest)
  | 'f' :: 'a' :: 'l' :: 's' :: 'e' :: rest => some (.bool false, rest)
  | '"' :: rest =>
      (scanText rest).map fun (pieces, rest) =>
        (.text ((Piece.join pieces).map String.ofList), rest)
  | cs => (scanNumber cs).map fun (n, rest) => (.number n, rest)

/-- Every token is at least one character long, so the length of the text is fuel enough. -/
def scanWith : Nat → List Char → Option (List Token)
  | _, [] => some []
  | 0, _ :: _ => none
  | fuel + 1, c :: rest =>
      if isBlank c then scanWith fuel rest
      else do
        let (token, rest) ← scanToken (c :: rest)
        return token :: (← scanWith fuel rest)

def Token.scan (cs : List Char) : Option (List Token) := scanWith cs.length cs

def hexFour (n : Nat) : List Char :=
  [n / 4096 % 16, n / 256 % 16, n / 16 % 16, n % 16].map Nat.digitChar

/-- A character inside a text: what has to be escaped is, by a letter where it has one. -/
def spellChar (c : Char) : List Char :=
  match c with
  | '"' => ['\\', '"']
  | '\\' => ['\\', '\\']
  | '\x08' => ['\\', 'b']
  | '\x0c' => ['\\', 'f']
  | '\n' => ['\\', 'n']
  | '\r' => ['\\', 'r']
  | '\t' => ['\\', 't']
  | c => if c.toNat < 0x20 then '\\' :: 'u' :: hexFour c.toNat else [c]

def spellInt (n : Int) : List Char := (toString n).toList

def spellNumber (n : Number) : List Char :=
  (if n.negative then ['-'] else []) ++ Nat.toDigits 10 n.whole
    ++ (match n.fraction with | some ds => '.' :: ds | none => [])
    ++ (match n.exponent with | some e => 'e' :: spellInt e | none => [])

/-- An unreadable text is written as an escape that cannot be read either. -/
def spellText : Text → List Char
  | some s => '"' :: s.toList.flatMap spellChar ++ ['"']
  | none => "\"\\ud800\"".toList

def Token.spell : Token → List Char
  | .openArray => ['[']
  | .closeArray => [']']
  | .openObject => ['{']
  | .closeObject => ['}']
  | .comma => [',']
  | .colon => [':']
  | .null => "null".toList
  | .bool true => "true".toList
  | .bool false => "false".toList
  | .number n => spellNumber n
  | .text t => spellText t

end Wiring.Json
