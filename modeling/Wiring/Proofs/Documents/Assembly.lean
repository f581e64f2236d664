import Wiring.Proofs.Documents.Scanning

/-!
A document is assembled from the tokens that it is laid out in, whatever stands around it, and so a
text that a document was written to is parsed to that document.
-/
namespace Wiring.Json

mutual

/-- Every number in the document is a literal that can be written. -/
def Spelled : Json → Prop
  | .number n => n.Spelled
  | .array items => SpelledItems items
  | .object members => SpelledMembers members
  | _ => True

def SpelledItems : List Json → Prop
  | [] => True
  | d :: items => d.Spelled ∧ SpelledItems items

def SpelledMembers : List (Text × Json) → Prop
  | [] => True
  | m :: members => m.2.Spelled ∧ SpelledMembers members

end

theorem Token.apart_cons {t : Token} {ts : List Token} (other : t.isNumber = false)
    (apart : Token.Apart ts) : Token.Apart (t :: ts) := by
  refine ⟨?_, by simp [other], apart⟩
  cases t with
  | number n => cases other
  | _ => trivial

def Closes (ts : List Token) : Prop := Token.Apart ts ∧ ∀ u ∈ ts.head?, u.isNumber = false

theorem Closes.cons {t : Token} {ts : List Token} (other : t.isNumber = false)
    (apart : Token.Apart ts) : Closes (t :: ts) :=
  ⟨Token.apart_cons other apart, by simpa using other⟩

mutual

theorem apart_tokens : ∀ (d : Json) (rest : List Token), d.Spelled → Closes rest →
    Token.Apart (d.tokens rest)
  | .null, _, _, closes | .bool _, _, _, closes | .text _, _, _, closes =>
      Token.apart_cons rfl closes.1
  | .number _, _, spelled, closes => ⟨spelled, fun _ => closes.2, closes.1⟩
  | .array [], _, _, closes | .object [], _, _, closes =>
      Token.apart_cons rfl (Token.apart_cons rfl closes.1)
  | .array (d :: items), rest, spelled, closes =>
      Token.apart_cons rfl
        (apart_tokens d _ spelled.1 (closes_tokensOfItems items rest spelled.2 closes.1))
  | .object (m :: members), rest, spelled, closes =>
      Token.apart_cons rfl (Token.apart_cons rfl (Token.apart_cons rfl
        (apart_tokens m.2 _ spelled.1 (closes_tokensOfMembers members rest spelled.2 closes.1))))

theorem closes_tokensOfItems : ∀ (items : List Json) (rest : List Token), SpelledItems items →
    Token.Apart rest → Closes (tokensOfItems items rest)
  | [], _, _, apart => Closes.cons rfl apart
  | d :: items, rest, spelled, apart =>
      Closes.cons rfl (apart_tokens d _ spelled.1 (closes_tokensOfItems items rest spelled.2 apart))

theorem closes_tokensOfMembers : ∀ (members : List (Text × Json)) (rest : List Token),
    SpelledMembers members → Token.Apart rest → Closes (tokensOfMembers members rest)
  | [], _, _, apart => Closes.cons rfl apart
  | m :: members, rest, spelled, apart =>
      Closes.cons rfl (Token.apart_cons rfl (Token.apart_cons rfl
        (apart_tokens m.2 _ spelled.1 (closes_tokensOfMembers members rest spelled.2 apart))))

end

/-- The first item of an array is a value like any other. -/
theorem assemble_item (d : Json) (frames : List Frame) (rest : List Token) :
    assemble .item frames (d.tokens rest) =
      assemble .value (.items [] :: frames) (d.tokens rest) := by
  cases d with
  | array items => cases items <;> rfl
  | object members => cases members <;> rfl
  | null | bool _ | number _ | text _ => rfl

mutual

theorem assemble_tokens : ∀ (d : Json) (frames : List Frame) (rest : List Token),
    assemble .value frames (d.tokens rest) = assemble (.afterValue d) frames rest
  | .null, _, _ | .bool _, _, _ | .number _, _, _ | .text _, _, _ => rfl
  | .array [], _, _ | .object [], _, _ => rfl
  | .array (d :: items), frames, rest => by
      have opened : assemble .value frames ((Json.array (d :: items)).tokens rest) =
          assemble .item frames (d.tokens (tokensOfItems items rest)) := rfl
      rw [opened, assemble_item, assemble_tokens d, assemble_tokensOfItems items]
      rfl
  | .object (m :: members), frames, rest => by
      have opened : assemble .value frames ((Json.object (m :: members)).tokens rest) =
          assemble .value (.member [] m.1 :: frames) (m.2.tokens (tokensOfMembers members rest)) :=
        rfl
      rw [opened, assemble_tokens m.2, assemble_tokensOfMembers members]
      rfl

theorem assemble_tokensOfItems : ∀ (items done : List Json) (d : Json) (frames : List Frame)
    (rest : List Token),
    assemble (.afterValue d) (.items done :: frames) (tokensOfItems items rest) =
      assemble (.afterValue (.array (done.reverse ++ d :: items))) frames rest
  | [], done, d, frames, rest => by
      have closed : assemble (.afterValue d) (.items done :: frames) (tokensOfItems [] rest) =
          assemble (.afterValue (.array (d :: done).reverse)) frames rest := rfl
      rw [closed, List.reverse_cons]
  | e :: items, done, d, frames, rest => by
      have next :
          assemble (.afterValue d) (.items done :: frames) (tokensOfItems (e :: items) rest) =
            assemble .value (.items (d :: done) :: frames)
              (e.tokens (tokensOfItems items rest)) := rfl
      rw [next, assemble_tokens e, assemble_tokensOfItems items, List.reverse_cons,
        List.append_assoc]
      rfl

theorem assemble_tokensOfMembers : ∀ (members done : List (Text × Json)) (name : Text) (d : Json)
    (frames : List Frame) (rest : List Token),
    assemble (.afterValue d) (.member done name :: frames) (tokensOfMembers members rest) =
      assemble (.afterValue (.object (done.reverse ++ (name, d) :: members))) frames rest
  | [], done, name, d, frames, rest => by
      have closed :
          assemble (.afterValue d) (.member done name :: frames) (tokensOfMembers [] rest) =
            assemble (.afterValue (.object ((name, d) :: done).reverse)) frames rest := rfl
      rw [closed, List.reverse_cons]
  | m :: members, done, name, d, frames, rest => by
      have next : assemble (.afterValue d) (.member done name :: frames)
          (tokensOfMembers (m :: members) rest) =
            assemble .value (.member ((name, d) :: done) m.1 :: frames)
              (m.2.tokens (tokensOfMembers members rest)) := rfl
      rw [next, assemble_tokens m.2, assemble_tokensOfMembers members, List.reverse_cons,
        List.append_assoc]
      rfl

end

/-- A document is what its text is parsed to. -/
theorem parse?_render {d : Json} (spelled : d.Spelled) : parse? d.render = some d := by
  have apart : Token.Apart (d.tokens []) := apart_tokens d [] spelled ⟨trivial, by simp⟩
  rw [parse?, render, String.toList_ofList, Token.scan_spell apart]
  exact assemble_tokens d [] []

end Wiring.Json
