import Mathlib.Data.List.Chain
import Wiring.Text.Case

/-!
Lower-case characters. Each of them is its own lower case, and none is upper case too. Both are
facts about the tables, whose runs stand in order, so that two tables are compared in one walk.
-/
namespace Wiring.Text

abbrev Run := Nat × Nat × Nat

namespace Run

def Covers (r : Run) (n : Nat) : Prop := r.1 ≤ n ∧ n ≤ r.2.1 ∧ (n - r.1) % r.2.2 = 0

def isClear (r s : Run) : Bool :=
  r.2.1 < s.1 || s.2.1 < r.1 ||
    (List.range ((r.2.1 - r.1) / r.2.2 + 1)).all fun k =>
      !(s.1 ≤ r.1 + r.2.2 * k && r.1 + r.2.2 * k ≤ s.2.1 && (r.1 + r.2.2 * k - s.1) % s.2.2 == 0)

variable {r s : Run} {rs ss : List Run} {n : Nat}

theorem not_covers_of_isClear (clear : isClear r s) (h : r.Covers n) : ¬s.Covers n := by
  obtain ⟨lower, upper, on⟩ := h
  have place : r.1 + r.2.2 * ((n - r.1) / r.2.2) = n := by
    have := Nat.div_add_mod (n - r.1) r.2.2
    omega
  have within : (n - r.1) / r.2.2 < (r.2.1 - r.1) / r.2.2 + 1 :=
    Nat.lt_succ_of_le (Nat.div_le_div_right (Nat.sub_le_sub_right upper _))
  simp only [isClear, Bool.or_eq_true, decide_eq_true_eq, List.all_eq_true, List.mem_range] at clear
  rintro ⟨lower', upper', on'⟩
  obtain (before | behind) | one := clear
  · omega
  · omega
  · have := one _ within
    simp [place, lower', upper', on'] at this

def Before (r s : Run) : Prop := r.2.1 < s.1 ∧ s.1 ≤ s.2.1

instance (r s : Run) : Decidable (Before r s) := inferInstanceAs (Decidable (_ ∧ _))

instance : IsTrans Run Before :=
  ⟨fun _ _ _ first second => ⟨first.1.trans_le (first.2.trans second.1.le), second.2⟩⟩

/-- Walks through two tables side by side and leaves behind the run that ends first. -/
def areClear : (steps : Nat) → List Run → List Run → Bool
  | _, [], _ => true
  | _, _, [] => true
  | 0, _, _ => false
  | steps + 1, r :: rs, s :: ss =>
      isClear r s &&
        if r.2.1 ≤ s.2.1 then areClear steps rs (s :: ss) else areClear steps (r :: rs) ss

theorem isClear_of_areClear {steps : Nat} (hr : rs.Pairwise Before) (hs : ss.Pairwise Before)
    (clear : areClear steps rs ss) : ∀ r ∈ rs, ∀ s ∈ ss, isClear r s := by
  induction steps generalizing rs ss with
  | zero => cases rs <;> cases ss <;> simp_all [areClear]
  | succ steps ih =>
      match rs, ss with
      | [], _ => simp
      | _ :: _, [] => simp
      | r :: rs, s :: ss =>
          obtain ⟨rFirst, hr'⟩ := List.pairwise_cons.1 hr
          obtain ⟨sFirst, hs'⟩ := List.pairwise_cons.1 hs
          rw [areClear, Bool.and_eq_true] at clear
          obtain ⟨here, clear⟩ := clear
          split at clear
          · next ends =>
            have rest := ih hr' hs clear
            refine List.forall_mem_cons.2 ⟨List.forall_mem_cons.2 ⟨here, fun s' h => ?_⟩, rest⟩
            simp [isClear, ends.trans_lt (sFirst s' h).1]
          · next ends =>
            have rest := ih hr hs' clear
            intro r' h s' h'
            obtain rfl | h' := List.mem_cons.1 h'
            · obtain rfl | h := List.mem_cons.1 h
              · exact here
              · simp [isClear, (not_le.1 ends).trans (rFirst r' h).1]
            · exact rest r' h s' h'

end Run

open Run (Before areClear isClear_of_areClear not_covers_of_isClear)

variable {c : Char}

/-- A lower-case character is in no run of a table that is clear of lower case. -/
theorem not_covers_of_isLower {table : List Run} (ordered : table.IsChain Before)
    (clear : areClear 400 lowerRuns table) (low : isLower c) :
    ∀ s ∈ table, ¬s.Covers c.toNat := by
  have lowOrdered : lowerRuns.IsChain Before := by decide +kernel
  obtain ⟨r, hr, within⟩ := List.any_eq_true.1 low
  simp only [Bool.and_eq_true, decide_eq_true_eq, beq_iff_eq] at within
  intro s hs
  have apart := isClear_of_areClear (List.isChain_iff_pairwise.1 lowOrdered)
    (List.isChain_iff_pairwise.1 ordered) clear r hr s hs
  exact not_covers_of_isClear apart ⟨within.1.1, within.1.2, within.2⟩

theorem isUpper_of_isLower (low : isLower c) : isUpper c = false := by
  have apart := not_covers_of_isLower (by decide +kernel : upperRuns.IsChain Before)
    (by decide +kernel) low
  refine List.any_eq_false.2 fun u hu covered => apart u hu ?_
  simp only [Bool.and_eq_true, decide_eq_true_eq, beq_iff_eq] at covered
  exact ⟨covered.1.1, covered.1.2, covered.2⟩

/-- A lower-case character is its own lower case. -/
theorem toLower_of_isLower (low : isLower c) : toLower c = [c] := by
  have text : toLowerTexts.lookup c.toNat = none := by
    have apart := not_covers_of_isLower
      (by decide +kernel : (toLowerTexts.map fun t => (t.1, t.1, 1)).IsChain Before)
      (by decide +kernel) low
    refine List.lookup_eq_none_iff.2 fun t ht => bne_iff_ne.2 fun same => ?_
    exact apart _ (List.mem_map_of_mem ht) ⟨same.ge, same.le, Nat.mod_one _⟩
  have runs := not_covers_of_isLower
    (by decide +kernel : (toLowerRuns.map fun u => (u.1, u.2.1, u.2.2.1)).IsChain Before)
    (by decide +kernel) low
  rw [toLower, mapCase, text]
  dsimp only
  split
  · next found =>
    have covered := List.find?_some found
    simp only [Bool.and_eq_true, decide_eq_true_eq, beq_iff_eq] at covered
    exact absurd ⟨covered.1.1, covered.1.2, covered.2⟩
      (runs _ (List.mem_map_of_mem (List.mem_of_find?_eq_some found)))
  · rfl

end Wiring.Text
