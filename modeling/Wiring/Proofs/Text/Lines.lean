import Wiring.Proofs.Accessor.Defaults

/-!
Texts as blocks of lines. Lines without line feeds, none of which ends in a carriage return, come
out of the layout as they are, with a margin after each line feed between them.
-/
namespace Wiring.Text

def IsFlat (text : String) : Prop := '\n' ∉ text.toList

instance (text : String) : Decidable (IsFlat text) := inferInstanceAs (Decidable (_ ∉ _))

@[simp]
theorem isFlat_append {s t : String} : IsFlat (s ++ t) ↔ IsFlat s ∧ IsFlat t := by
  simp [IsFlat]

/-- A flat text that keeps its last character when it is laid out as a line. -/
structure IsLine (text : String) : Prop where
  flat : IsFlat text
  ends : text.toList.getLast? ≠ some '\r'

instance (text : String) : Decidable (IsLine text) :=
  decidable_of_iff (IsFlat text ∧ text.toList.getLast? ≠ some '\r')
    ⟨fun h => ⟨h.1, h.2⟩, fun h => ⟨h.flat, h.ends⟩⟩

def lineBreak (levels : Nat) : String := String.ofList ('\n' :: List.replicate (4 * levels) ' ')

section Lines

variable {α : Type} {char : α → Char} {feed : List α} {a : α}

theorem dropReturn_of_getLast {line : List α} (ends : ∀ b ∈ line.getLast?, char b ≠ '\r') :
    dropReturn char line = line := by
  unfold dropReturn
  split
  · next b hb => exact if_neg (ends b hb)
  · rfl

/-- Lines that end in no carriage return are laid out with `feed` between any two. -/
theorem relined_intercalate {lines : List (List α)} (ha : char a = '\n')
    (flat : ∀ line ∈ lines, (∀ b ∈ line, char b ≠ '\n') ∧ ∀ b ∈ line.getLast?, char b ≠ '\r') :
    relined char feed ([a].intercalate lines) = feed.intercalate lines := by
  induction lines with
  | nil => rfl
  | cons line lines ih =>
      obtain ⟨⟨plain, ends⟩, flat⟩ := List.forall_mem_cons.mp flat
      cases lines with
      | nil => simpa using relined_of_line plain
      | cons next lines =>
          rw [List.intercalate_cons_cons, List.append_assoc, List.singleton_append,
            relined_line plain ha, dropReturn_of_getLast ends, ih flat, List.intercalate_cons_cons]

end Lines

theorem IsLine.append {s t : String} (flat : IsFlat s) (line : IsLine t) (some_ : t ≠ "") :
    IsLine (s ++ t) where
  flat := isFlat_append.mpr ⟨flat, line.flat⟩
  ends := by
    have ends : (s ++ t).toList.getLast? = t.toList.getLast? := by
      rw [String.toList_append, List.getLast?_append_of_ne_nil _ (by simpa using some_)]
    exact ends ▸ line.ends

theorem reindented_intercalate {lines : List String} (levels : Nat)
    (flat : ∀ line ∈ lines, IsLine line) :
    reindented levels ("\n".intercalate lines) = (lineBreak levels).intercalate lines := by
  have plain : ∀ line ∈ lines.map String.toList,
      (∀ c ∈ line, id c ≠ '\n') ∧ ∀ c ∈ line.getLast?, id c ≠ '\r' := by
    rintro _ inside
    obtain ⟨line, hl, rfl⟩ := List.mem_map.mp inside
    exact ⟨fun c hc feeds => (flat line hl).flat (feeds ▸ hc),
      fun c hc drops => (flat line hl).ends (drops ▸ hc)⟩
  rw [← String.toList_inj, reindented, lineBreak, String.toList_ofList, String.toList_intercalate,
    String.toList_intercalate, String.toList_ofList, String.toList_ofList]
  exact relined_intercalate (a := '\n') rfl plain

/-- Lines with a first and a last one, each but the last followed by its line feed. -/
theorem intercalate_block (first last : String) (inner : List String) :
    "\n".intercalate (first :: inner ++ [last]) =
      first ++ "\n" ++ String.join (inner.map (· ++ "\n")) ++ last := by
  induction inner generalizing first with
  | nil => simp
  | cons line inner ih =>
      rw [List.cons_append, List.cons_append, String.intercalate_cons_cons, ← List.cons_append, ih,
        List.map_cons, String.join_cons]
      simp only [String.append_assoc]

namespace Marked

theorem toString_flatMap {α : Type} (l : List α) (f : α → Marked) :
    Marked.toString (l.flatMap f) = String.join (l.map fun a => (f a).toString) := by
  induction l with
  | nil => rfl
  | cons a l ih => rw [List.flatMap_cons, toString_append, ih, List.map_cons, String.join_cons]

theorem toString_reflowed (levels : Nat) (t : Marked) :
    (reflowed levels t).toString = reindented levels t.toString := by
  rw [← String.toList_inj, Accessor.toList_toString, Accessor.chars_reflowed]

end Marked

end Wiring.Text
