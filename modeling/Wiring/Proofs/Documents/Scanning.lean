import Wiring.Json.Text

/-!
Tokens are scanned as they were spelled: texts character by character, numbers by their digits, and
a row of tokens if no number stands right before another one, which would run into it.
-/
namespace Wiring.Json

def pieceOf (c : Char) : Piece :=
  if c.toNat < 0x20 ∧ c ∉ ['\x08', '\x0c', '\n', '\r', '\t'] then .unit c.toNat else .char c

theorem hexDigit?_digitChar : ∀ d < 16, hexDigit? d.digitChar = some d := by
  decide

theorem hexUnit?_hexFour {n : Nat} (small : n < 0x20) :
    hexUnit? (n / 4096 % 16).digitChar (n / 256 % 16).digitChar (n / 16 % 16).digitChar
      (n % 16).digitChar = some n := by
  simp only [hexUnit?, hexDigit?_digitChar _ (Nat.mod_lt _ (by decide : 0 < 16)),
    Option.bind_eq_bind, Option.bind_some, Option.pure_def, Option.some.injEq]
  omega

theorem scanText_escape {e c : Char} (known : shortEscapes.lookup e = some c) (rest : List Char) :
    scanText ('\\' :: e :: rest) = (scanText rest).map fun r => (.char c :: r.1, r.2) := by
  have letter : e ≠ 'u' := by
    rintro rfl
    cases known
  rw [scanText.eq_def]
  split
  case h_4 e' rest' other same =>
    simp only [List.cons.injEq, true_and] at same
    obtain ⟨rfl, rfl⟩ := same
    rw [known, Option.map_eq_bind]
    rfl
  case h_5 c' rest' _ other same =>
    simp only [List.cons.injEq] at same
    exact absurd same.2.symm (other e rest same.1.symm)
  all_goals simp_all

theorem scanText_plain {c : Char} (quote : c ≠ '"') (escape : c ≠ '\\') (large : 0x20 ≤ c.toNat)
    (rest : List Char) :
    scanText (c :: rest) = (scanText rest).map fun r => (.char c :: r.1, r.2) := by
  have kept : ¬(c = '\\' ∨ c.toNat < 0x20) := by simp [escape, large]
  rw [scanText.eq_def]
  split
  case h_5 c' rest' _ _ same =>
    obtain ⟨rfl, rfl⟩ := List.cons.inj same
    rw [if_neg kept, Option.map_eq_bind]
    rfl
  all_goals simp_all

theorem scanText_unit {n : Nat} (small : n < 0x20) (rest : List Char) :
    scanText ('\\' :: 'u' :: (hexFour n ++ rest)) =
      (scanText rest).map fun r => (.unit n :: r.1, r.2) := by
  simp only [hexFour, List.map_cons, List.map_nil, List.cons_append, List.nil_append, scanText,
    hexUnit?_hexFour small, Option.bind_eq_bind, Option.bind_some, Option.map_eq_bind]
  rfl

theorem scanText_spellChar (c : Char) (rest : List Char) :
    scanText (spellChar c ++ rest) = (scanText rest).map fun r => (pieceOf c :: r.1, r.2) := by
  unfold spellChar
  split
  case h_8 c quote escape _ _ _ _ _ =>
    split
    · next small =>
        rw [pieceOf, if_pos (by simp_all)]
        exact scanText_unit small rest
    · next large =>
        rw [pieceOf, if_neg (by simp_all)]
        exact scanText_plain quote escape (by omega) rest
  all_goals exact scanText_escape rfl rest

theorem scanText_spellChars (cs rest : List Char) :
    scanText (cs.flatMap spellChar ++ '"' :: rest) = some (cs.map pieceOf, rest) := by
  induction cs with
  | nil => rfl
  | cons c cs ih => simp [scanText_spellChar, ih]

theorem join_unit {n : Nat} (small : n < 0x20) (pieces : List Piece) :
    Piece.join (.unit n :: pieces) = (Piece.join pieces).map (Char.ofNat n :: ·) := by
  have low : Piece.isHigh n = false ∧ Piece.isLow n = false := by
    simp [Piece.isHigh, Piece.isLow]
    omega
  rw [Piece.join.eq_def]
  split <;> simp_all

theorem join_pieceOf (cs : List Char) : Piece.join (cs.map pieceOf) = some cs := by
  induction cs with
  | nil => rfl
  | cons c cs ih =>
      rw [List.map_cons, pieceOf]
      split
      · next coded => rw [join_unit coded.1, ih, Option.map_some, Char.ofNat_toNat]
      · rw [Piece.join, ih, Option.map_some]

/-- An escape that names half of a pair is a piece, but does not join to a text. -/
theorem scanText_unreadable (rest : List Char) :
    scanText ("\\ud800\"".toList ++ rest) = some ([.unit 0xD800], rest) := by
  simp [scanText, hexUnit?, hexDigit?]

theorem scanToken_spellText (t : Text) (rest : List Char) :
    scanToken (spellText t ++ rest) = some (.text t, rest) := by
  have quoted : ∀ cs, scanToken ('"' :: cs) =
      (scanText cs).map fun r => (.text ((Piece.join r.1).map String.ofList), r.2) := fun _ => rfl
  cases t with
  | none =>
      have spelled : spellText none = '"' :: "\\ud800\"".toList := rfl
      rw [spelled, List.cons_append, quoted, scanText_unreadable]
      rfl
  | some s =>
      have spelled : spellText (some s) = '"' :: s.toList.flatMap spellChar ++ ['"'] := rfl
      rw [spelled, List.append_assoc, List.cons_append, quoted, List.singleton_append,
        scanText_spellChars]
      simp [join_pieceOf]

def Halts (rest : List Char) : Prop := ∀ c ∈ rest.head?, c.isDigit = false

theorem spanDigits_append {ds rest : List Char} (digits : ∀ c ∈ ds, c.isDigit) (stop : Halts rest) :
    spanDigits (ds ++ rest) = (ds, rest) := by
  induction ds with
  | nil =>
      cases rest with
      | nil => rfl
      | cons c rest => simp [spanDigits, stop c rfl]
  | cons d ds ih =>
      obtain ⟨first, others⟩ := List.forall_mem_cons.1 digits
      simp [spanDigits, first, ih others]

theorem isDigit_of_mem_toDigits {n : Nat} : ∀ c ∈ Nat.toDigits 10 n, c.isDigit := fun _ =>
  Nat.isDigit_of_mem_toDigits (by decide) (by decide)

theorem digitsValue_toDigits (n : Nat) : digitsValue (Nat.toDigits 10 n) = n := by
  have read := Nat.ofDigitChars_ten_toDigits (n := n)
  simpa only [Nat.ofDigitChars_eq_foldl, Nat.mul_comm, digitsValue] using read

theorem spanDigits_toDigits (n : Nat) {rest : List Char} (stop : Halts rest) :
    spanDigits (Nat.toDigits 10 n ++ rest) = (Nat.toDigits 10 n, rest) :=
  spanDigits_append isDigit_of_mem_toDigits stop

/-- The digits of a number begin with a digit, and with zero for zero alone. -/
theorem exists_toDigits (n : Nat) :
    ∃ d ds, Nat.toDigits 10 n = d :: ds ∧ d.isDigit ∧ (0 < n → d ≠ '0') := by
  induction n using Nat.base_induction 10 (by decide) with
  | single m small =>
      refine ⟨m.digitChar, [], Nat.toDigits_of_lt_base small, ?_, ?_⟩
      · simpa [Nat.isDigit_digitChar] using small
      · intro positive
        simpa using Nat.ne_of_gt positive
  | digit m k small positive ih =>
      obtain ⟨d, ds, eq, digit, nonzero⟩ := ih
      refine ⟨d, ds ++ Nat.toDigits 10 k, ?_, digit, fun _ => nonzero positive⟩
      rw [← Nat.toDigits_append_toDigits (by decide) positive small, eq, List.cons_append]

theorem scanWhole_toDigits (n : Nat) {rest : List Char} (stop : Halts rest) :
    scanWhole (Nat.toDigits 10 n ++ rest) = some (n, rest) := by
  obtain ⟨d, ds, eq, -, nonzero⟩ := exists_toDigits n
  have span := spanDigits_toDigits n stop
  have value := digitsValue_toDigits n
  cases Nat.eq_zero_or_pos n with
  | inl zero =>
      subst zero
      rfl
  | inr positive =>
      rw [eq] at span value ⊢
      rw [scanWhole.eq_def]
      split
      · next same => exact absurd (List.cons.inj same).1 (nonzero positive)
      · rw [span]
        simp [value]

theorem scanPower_toDigits (negative : Bool) (n : Nat) {rest : List Char} (stop : Halts rest) :
    scanPower negative (Nat.toDigits 10 n ++ rest) =
      some (some (if negative then -(n : Int) else n), rest) := by
  obtain ⟨d, ds, eq, -⟩ := exists_toDigits n
  have value := digitsValue_toDigits n
  rw [scanPower, spanDigits_toDigits n stop]
  rw [eq] at value ⊢
  simp [value]

theorem scanSignedPower_spellInt (e : Int) {rest : List Char} (stop : Halts rest) :
    scanSignedPower (spellInt e ++ rest) = some (some e, rest) := by
  rw [spellInt, Int.toString_eq_repr]
  cases e with
  | negSucc n =>
      have power := scanPower_toDigits true n.succ stop
      simpa [Int.repr, scanSignedPower, Int.negSucc_eq] using power
  | ofNat n =>
      have power := scanPower_toDigits false n stop
      obtain ⟨d, ds, eq, digit, -⟩ := exists_toDigits n
      simp only [Int.repr, Nat.toList_repr]
      rw [eq] at power ⊢
      rw [scanSignedPower.eq_def]
      split
      · next same => simp_all
      · next same => simp_all
      · simpa using power

def spellFraction : Option (List Char) → List Char
  | some ds => '.' :: ds
  | none => []

def spellExponent : Option Int → List Char
  | some e => 'e' :: spellInt e
  | none => []

theorem spellNumber_eq (n : Number) : spellNumber n = (if n.negative then ['-'] else []) ++
    (Nat.toDigits 10 n.whole ++ (spellFraction n.fraction ++ spellExponent n.exponent)) := by
  simp only [spellNumber, List.append_assoc]
  cases n.fraction <;> cases n.exponent <;> rfl

/-- A literal that can be written: a point in it has digits after it. -/
def Number.Spelled (n : Number) : Prop :=
  ∀ ds ∈ n.fraction, ds ≠ [] ∧ ∀ c ∈ ds, c.isDigit

def Ends (rest : List Char) : Prop := ∀ c ∈ rest.head?, c.isDigit = false ∧ c ∉ ['.', 'e', 'E']

theorem scanExponent_spell (exponent : Option Int) {rest : List Char} (ends : Ends rest) :
    scanExponent (spellExponent exponent ++ rest) = some (exponent, rest) := by
  cases exponent with
  | some e => exact scanSignedPower_spellInt e fun c hc => (ends c hc).1
  | none =>
      cases rest with
      | nil => rfl
      | cons c rest =>
          have other := (ends c rfl).2
          simp only [spellExponent, List.nil_append]
          rw [scanExponent.eq_def]
          split <;> simp_all

theorem Ends.halts_exponent {rest : List Char} (ends : Ends rest) (exponent : Option Int) :
    Halts (spellExponent exponent ++ rest) := by
  cases exponent with
  | some e =>
      intro c hc
      cases hc
      rfl
  | none => exact fun c hc => (ends c hc).1

theorem scanFraction_spell {n : Number} (spelled : n.Spelled) {rest : List Char}
    (ends : Ends rest) :
    scanFraction (spellFraction n.fraction ++ (spellExponent n.exponent ++ rest)) =
      some (n.fraction, spellExponent n.exponent ++ rest) := by
  cases fraction : n.fraction with
  | some ds =>
      obtain ⟨nonempty, digits⟩ := spelled ds fraction
      have span := spanDigits_append digits (ends.halts_exponent n.exponent)
      cases ds with
      | nil => exact absurd rfl nonempty
      | cons d ds =>
          rw [List.cons_append] at span
          simp [spellFraction, scanFraction, span]
  | none =>
      have other : (spellExponent n.exponent ++ rest).head? ≠ some '.' := by
        cases n.exponent with
        | some e => simp [spellExponent]
        | none => exact fun point => (ends '.' point).2 (by simp)
      rw [spellFraction, List.nil_append, scanFraction.eq_def]
      split
      · next same => exact absurd (by rw [same]; rfl) other
      · rfl

theorem Ends.halts_fraction {rest : List Char} (ends : Ends rest) (fraction : Option (List Char))
    (exponent : Option Int) :
    Halts (spellFraction fraction ++ (spellExponent exponent ++ rest)) := by
  cases fraction with
  | some ds =>
      intro c hc
      cases hc
      rfl
  | none => exact ends.halts_exponent exponent

theorem scanNumber_spellNumber {n : Number} (spelled : n.Spelled) {rest : List Char}
    (ends : Ends rest) : scanNumber (spellNumber n ++ rest) = some (n, rest) := by
  have unsigned : scanUnsigned n.negative (Nat.toDigits 10 n.whole ++
      (spellFraction n.fraction ++ (spellExponent n.exponent ++ rest))) = some (n, rest) := by
    simp [scanUnsigned, scanWhole_toDigits n.whole (ends.halts_fraction n.fraction n.exponent),
      scanFraction_spell spelled ends, scanExponent_spell n.exponent ends]
  rw [spellNumber_eq]
  simp only [List.append_assoc]
  cases sign : n.negative with
  | true => simpa [sign, scanNumber] using unsigned
  | false =>
      obtain ⟨d, ds, eq, digit, -⟩ := exists_toDigits n.whole
      simp only [eq, sign, Bool.false_eq_true, if_false, List.nil_append, List.cons_append]
        at unsigned ⊢
      rw [scanNumber.eq_def]
      split
      · simp_all
      · exact unsigned

/-- A number begins with a sign or a digit. -/
theorem exists_spellNumber (n : Number) :
    ∃ c cs, spellNumber n = c :: cs ∧ (c = '-' ∨ c.isDigit = true) := by
  obtain ⟨d, ds, eq, digit, -⟩ := exists_toDigits n.whole
  rw [spellNumber_eq, eq]
  cases n.negative with
  | true => exact ⟨'-', _, rfl, .inl rfl⟩
  | false => exact ⟨d, _, rfl, .inr digit⟩

theorem scanToken_of_number {c : Char} (starts : c = '-' ∨ c.isDigit = true) (cs : List Char) :
    scanToken (c :: cs) = (scanNumber (c :: cs)).map fun r => (.number r.1, r.2) := by
  rw [scanToken.eq_def]
  split
  case h_11 => rfl
  all_goals
    next same =>
      obtain ⟨rfl, -⟩ := List.cons.inj same
      simp at starts

namespace Token

def isNumber : Token → Bool
  | .number _ => true
  | _ => false

def Spelled : Token → Prop
  | .number n => n.Spelled
  | _ => True

theorem scanToken_spell {t : Token} (spelled : t.Spelled) {rest : List Char}
    (ends : t.isNumber → Ends rest) : scanToken (t.spell ++ rest) = some (t, rest) := by
  cases t with
  | number n =>
      obtain ⟨c, cs, eq, starts⟩ := exists_spellNumber n
      have number := scanNumber_spellNumber spelled (ends rfl)
      simp only [spell]
      rw [eq, List.cons_append] at number ⊢
      rw [scanToken_of_number starts, number]
      rfl
  | text t => exact scanToken_spellText t rest
  | bool b => cases b <;> rfl
  | openArray | closeArray | openObject | closeObject | comma | colon | null => rfl

/-- No token begins with a blank, and one that is no number goes on with none. -/
theorem exists_spell (t : Token) : ∃ c cs, t.spell = c :: cs ∧ isBlank c = false ∧
    (t.isNumber = false → c.isDigit = false ∧ c ∉ ['.', 'e', 'E']) := by
  cases t with
  | number n =>
      obtain ⟨c, cs, eq, starts⟩ := exists_spellNumber n
      refine ⟨c, cs, eq, ?_, by simp [isNumber]⟩
      cases starts with
      | inl minus => rw [minus]; rfl
      | inr digit =>
          apply Bool.eq_false_iff.2
          intro blank
          simp only [isBlank, Bool.or_eq_true, beq_iff_eq] at blank
          obtain ((rfl | rfl) | rfl) | rfl := blank <;> cases digit
  | text t => cases t <;> exact ⟨_, _, rfl, rfl, fun _ => by decide⟩
  | bool b => cases b <;> exact ⟨_, _, rfl, rfl, by decide⟩
  | openArray | closeArray | openObject | closeObject | comma | colon | null =>
      exact ⟨_, _, rfl, rfl, by decide⟩

/-- Tokens that can be told apart where they are written one after another. -/
def Apart : List Token → Prop
  | [] => True
  | t :: rest => t.Spelled ∧ (t.isNumber → ∀ u ∈ rest.head?, u.isNumber = false) ∧ Apart rest

theorem ends_of_apart {rest : List Token} (other : ∀ u ∈ rest.head?, u.isNumber = false) :
    Ends (rest.flatMap spell) := by
  cases rest with
  | nil => exact fun c hc => by cases hc
  | cons u rest =>
      obtain ⟨c, cs, eq, -, others⟩ := u.exists_spell
      intro d hd
      rw [List.flatMap_cons, eq] at hd
      cases hd
      exact others (other u rfl)

theorem scanWith_spell {ts : List Token} (apart : Apart ts) {fuel : Nat}
    (enough : (ts.flatMap spell).length ≤ fuel) :
    scanWith fuel (ts.flatMap spell) = some ts := by
  induction ts generalizing fuel with
  | nil => cases fuel <;> rfl
  | cons t rest ih =>
      obtain ⟨spelled, other, apart⟩ := apart
      obtain ⟨c, cs, eq, shown, -⟩ := t.exists_spell
      have first := scanToken_spell spelled fun number => ends_of_apart (other number)
      rw [List.flatMap_cons] at enough ⊢
      rw [eq, List.cons_append] at first enough ⊢
      cases fuel with
      | zero => simp at enough
      | succ fuel =>
          simp only [List.length_cons, List.length_append, Nat.add_le_add_iff_right] at enough
          have others := ih apart (Nat.le_of_add_left_le enough)
          simp [scanWith, shown, first, others]

theorem scan_spell {ts : List Token} (apart : Apart ts) : scan (ts.flatMap spell) = some ts :=
  scanWith_spell apart (Nat.le_refl _)

end Token

end Wiring.Json
