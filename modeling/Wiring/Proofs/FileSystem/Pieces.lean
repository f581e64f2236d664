import Wiring.FileSystem

/-!
The pieces of a path and the steps of its walk. The pieces of two texts with a slash between them
are those of both, and a name without a slash is the one piece that it adds to the path it is
joined to.
-/
namespace Wiring

open Wiring.Path (pieces isVoid)
open FileSystem (steps ending Ending)

namespace Path

/-- There is a first piece, be it an empty one. -/
theorem exists_pieces (xs : List Char) : ∃ piece more, pieces xs = piece :: more := by
  cases xs with
  | nil => exact ⟨_, _, rfl⟩
  | cons c rest =>
      rw [pieces]
      split
      · exact ⟨_, _, rfl⟩
      · split <;> exact ⟨_, _, rfl⟩

theorem pieces_append (xs ys : List Char) :
    pieces (xs ++ '/' :: ys) = pieces xs ++ pieces ys := by
  induction xs with
  | nil => rfl
  | cons c rest ih =>
      rw [List.cons_append, pieces, pieces]
      split
      · rw [ih, List.cons_append]
      · obtain ⟨piece, more, first⟩ := exists_pieces rest
        rw [ih, first]
        rfl

theorem pieces_of_plain {name : List Char} (plain : '/' ∉ name) : pieces name = [name] := by
  induction name with
  | nil => rfl
  | cons c rest ih =>
      obtain ⟨hc, plain⟩ := not_or.1 (mt List.mem_cons.2 plain)
      rw [pieces, if_neg (Ne.symm hc), ih plain]

theorem head?_of_plain {name : List Char} (plain : '/' ∉ name) : name.head? ≠ some '/' := by
  intro h
  exact plain (List.mem_of_mem_head? h)

end Path

namespace FileSystem

variable {p root : Path}

theorem steps_append (ps qs : List (List Char)) : steps (ps ++ qs) = steps ps ++ steps qs :=
  List.filter_append ..

/-- The lead of a path takes no step. -/
theorem steps_pieces (p : Path) : steps (pieces p.text) = p.components := by
  unfold Path.components Path.split steps
  obtain ⟨text⟩ := p
  split <;> simp_all [pieces, isVoid]

/-- What the slashes at the end of a path leave, the last piece first. -/
theorem pieces_eq_trimmed (ps : List (List Char)) :
    ∃ slashes, ps = (ps.reverse.dropWhile (· == [])).reverse ++ slashes ∧ steps slashes = [] := by
  refine ⟨(ps.reverse.takeWhile (· == [])).reverse, ?_, ?_⟩
  · rw [← List.reverse_append, List.takeWhile_append_dropWhile, List.reverse_reverse]
  · rw [steps, List.filter_eq_nil_iff]
    intro c hc
    have void := List.all_eq_true.1 List.all_takeWhile c (List.mem_reverse.1 hc)
    simp_all [isVoid]

theorem ending_dots {all : List (List Char)} (h : ending p = .dots all) :
    ∃ rest, p.components = steps all.dropLast ++ rest := by
  simp only [ending] at h
  split at h
  · cases h
    exact ⟨_, rfl⟩
  · split at h
    · cases h
      rw [← steps_pieces]
      by_cases hp : pieces p.text = []
      · exact ⟨[], by rw [hp]; rfl⟩
      · refine ⟨steps [(pieces p.text).getLast hp], ?_⟩
        rw [← steps_append, List.dropLast_concat_getLast]
    · cases h

theorem ending_name {before : List (List Char)} {name : List Char} {slashed : Bool}
    (h : ending p = .name before name slashed) :
    p.components = steps before ++ [name] ∧ name ≠ ['.', '.'] := by
  simp only [ending] at h
  split at h
  · cases h
  · next last before' trimmed =>
      split at h
      · cases h
      · next named =>
          cases h
          obtain ⟨slashes, split, none⟩ := pieces_eq_trimmed (pieces p.text)
          obtain ⟨here, parent⟩ := not_or.1 named
          have solid : isVoid name = false := by
            have first := List.head?_dropWhile_not (· == []) (pieces p.text).reverse
            rw [trimmed] at first
            simp only [List.head?_cons] at first
            simp [isVoid, here, beq_eq_false_iff_ne.1 first]
          refine ⟨?_, parent⟩
          rw [← steps_pieces, split, trimmed, List.reverse_cons, steps_append, steps_append, none,
            List.append_nil]
          simp [steps, solid]

/-- A path whose last piece is a name ends with it. -/
theorem ending_of_pieces {before : List (List Char)} {name : List Char}
    (h : pieces p.text = before ++ [name]) (named : name ≠ []) (here : name ≠ ['.'])
    (parent : name ≠ ['.', '.']) : ending p = .name before name false := by
  have trimmed : (before ++ [name]).reverse.dropWhile (· == []) = name :: before.reverse := by
    rw [List.reverse_append, List.reverse_singleton, List.singleton_append, List.dropWhile_cons,
      beq_eq_false_iff_ne.2 named]
    rfl
  simp only [ending, h, trimmed]
  simp [here, parent]

/-- A path whose last piece is empty or dots ends with no name, or with slashes. -/
theorem ending_of_void {before before' : List (List Char)} {name name' : List Char}
    (h : pieces p.text = before ++ [name])
    (void : name = [] ∨ name = ['.'] ∨ name = ['.', '.']) :
    ending p ≠ .name before' name' false := by
  intro he
  simp only [ending, h] at he
  split at he
  · cases he
  · next last rest trimmed =>
      split at he
      · cases he
      · next named =>
          obtain ⟨-, -, slashed⟩ := (Ending.name.injEq ..).mp he
          rw [List.reverse_append, List.reverse_singleton, List.singleton_append] at trimmed slashed
          by_cases empty : name = []
          · subst empty
            have fewer := (List.dropWhile_suffix (· == []) (l := before.reverse)).length_le
            simp only [List.dropWhile_cons, beq_self_eq_true, if_true, List.length_append,
              List.length_singleton, decide_eq_false_iff_not] at slashed
            rw [List.length_reverse] at fewer
            omega
          · rw [List.dropWhile_cons, beq_eq_false_iff_ne.2 empty] at trimmed
            simp only [Bool.false_eq_true, if_false] at trimmed
            obtain ⟨rfl, -⟩ := List.cons.inj trimmed
            exact named (void.resolve_left empty)

theorem pieces_join (root : Path) {name : List Char} (plain : '/' ∉ name) :
    ∃ before, pieces (root.join ⟨name⟩).text = before ++ [name] ∧
      steps before = root.components := by
  have relative : (⟨name⟩ : Path).isAbsolute = false := by
    simpa [Path.isAbsolute] using Path.head?_of_plain plain
  rw [← steps_pieces root]
  unfold Path.join
  rw [if_neg (by simp [relative])]
  split
  · next empty =>
      cases empty with
      | inl empty =>
          refine ⟨[], ?_, ?_⟩
          · simp [empty, Path.pieces_of_plain plain]
          · rw [empty]
            rfl
      | inr slashed =>
          obtain ⟨body, hb⟩ := List.getLast?_eq_some_iff.1 slashed
          refine ⟨pieces body, ?_, ?_⟩
          · simp only [hb, List.append_assoc, List.singleton_append]
            rw [Path.pieces_append, Path.pieces_of_plain plain]
          · rw [hb, Path.pieces_append, steps_append]
            simp [pieces, steps, isVoid]
  · exact ⟨_, by rw [Path.pieces_append, Path.pieces_of_plain plain], rfl⟩

theorem isAbsolute_join {name : List Char} (plain : '/' ∉ name) :
    (root.join ⟨name⟩).isAbsolute = root.isAbsolute := by
  have relative : (⟨name⟩ : Path).isAbsolute = false := by
    simpa [Path.isAbsolute] using Path.head?_of_plain plain
  unfold Path.join
  rw [if_neg (by simp [relative])]
  obtain ⟨text⟩ := root
  cases text with
  | nil => simpa [Path.isAbsolute] using relative
  | cons c rest => split <;> rfl

end FileSystem

end Wiring
