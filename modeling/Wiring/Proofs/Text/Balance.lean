import Mathlib.Data.List.Basic

/-!
Brackets in texts. In a balanced text each bracket has a partner of its own kind, and pairs are
nested or apart. A text is read with the brackets that are open on a stack: a balanced one leaves
every stack as it was, and only such a one leaves the empty stack empty.
-/
namespace Wiring.Text

inductive Bracket
  | round
  | square
  | curly
deriving DecidableEq, Repr

namespace Bracket

def all : List Bracket := [.round, .square, .curly]

def opener : Bracket → Char
  | .round => '('
  | .square => '['
  | .curly => '{'

def closer : Bracket → Char
  | .round => ')'
  | .square => ']'
  | .curly => '}'

theorem mem_all (b : Bracket) : b ∈ all := by
  cases b <;> decide

variable {b d : Bracket}

@[simp]
theorem opener_inj : b.opener = d.opener ↔ b = d := by
  cases b <;> cases d <;> decide

@[simp]
theorem closer_inj : b.closer = d.closer ↔ b = d := by
  cases b <;> cases d <;> decide

@[simp]
theorem opener_ne_closer : b.opener ≠ d.closer := by
  cases b <;> cases d <;> decide

@[simp]
theorem closer_ne_opener : b.closer ≠ d.opener :=
  opener_ne_closer.symm

end Bracket

def IsBracket (kinds : List Bracket) (c : Char) : Prop :=
  ∃ b ∈ kinds, c = b.opener ∨ c = b.closer

/-- A text whose brackets of the given kinds are paired. Brackets of other kinds are characters like
all others, so that each kind can be looked at alone. -/
inductive Balanced (kinds : List Bracket) : List Char → Prop
  | nil : Balanced kinds []
  | plain {c : Char} {s : List Char} (other : ¬IsBracket kinds c) (rest : Balanced kinds s) :
      Balanced kinds (c :: s)
  | pair {b : Bracket} {s t : List Char} (kind : b ∈ kinds) (inner : Balanced kinds s)
      (rest : Balanced kinds t) : Balanced kinds (b.opener :: (s ++ b.closer :: t))

/-- The brackets that are open after the character `c`, the innermost first; none if it closes
another one than the innermost. -/
def step (kinds : List Bracket) (inside : List Bracket) (c : Char) : Option (List Bracket) :=
  match kinds.find? fun b => b.opener = c with
  | some b => some (b :: inside)
  | none =>
      match kinds.find? fun b => b.closer = c with
      | some b => if inside.head? = some b then some inside.tail else none
      | none => some inside

def scan (kinds : List Bracket) (inside : List Bracket) (s : List Char) : Option (List Bracket) :=
  s.foldlM (step kinds) inside

variable {kinds inside after : List Bracket} {b : Bracket} {c : Char} {s t : List Char}

theorem find?_of_only {p : Bracket → Bool} (kind : b ∈ kinds) (only : ∀ d, p d ↔ d = b) :
    kinds.find? p = some b := by
  obtain ⟨d, found⟩ :=
    Option.isSome_iff_exists.mp (List.find?_isSome.mpr ⟨b, kind, (only b).mpr rfl⟩)
  rw [found, (only d).mp (List.find?_some found)]

theorem step_opener (kind : b ∈ kinds) : step kinds inside b.opener = some (b :: inside) := by
  have found : kinds.find? (fun d => d.opener = b.opener) = some b :=
    find?_of_only kind (by simp)
  simp only [step, found]

theorem step_closer (kind : b ∈ kinds) : step kinds inside b.closer =
    if inside.head? = some b then some inside.tail else none := by
  have opens : kinds.find? (fun d => d.opener = b.closer) = none := by simp
  have found : kinds.find? (fun d => d.closer = b.closer) = some b :=
    find?_of_only kind (by simp)
  simp only [step, opens, found]

theorem step_closer_cons (kind : b ∈ kinds) :
    step kinds (b :: inside) b.closer = some inside :=
  (step_closer kind).trans (if_pos rfl)

theorem step_other (other : ¬IsBracket kinds c) : step kinds inside c = some inside := by
  have opens : kinds.find? (fun d => d.opener = c) = none :=
    List.find?_eq_none.mpr fun d hd he => other ⟨d, hd, .inl (of_decide_eq_true he).symm⟩
  have closes : kinds.find? (fun d => d.closer = c) = none :=
    List.find?_eq_none.mpr fun d hd he => other ⟨d, hd, .inr (of_decide_eq_true he).symm⟩
  simp only [step, opens, closes]

/-- What a character does to the open brackets: one more, one less, or nothing. -/
theorem step_cases (h : step kinds inside c = some after) :
    (∃ b ∈ kinds, c = b.opener ∧ after = b :: inside) ∨
      (∃ b ∈ kinds, c = b.closer ∧ inside = b :: after) ∨
      (¬IsBracket kinds c ∧ after = inside) := by
  by_cases bracket : IsBracket kinds c
  · obtain ⟨b, kind, rfl | rfl⟩ := bracket
    · exact .inl ⟨b, kind, rfl, (Option.some.inj ((step_opener kind).symm.trans h)).symm⟩
    · rw [step_closer kind] at h
      split at h
      · next innermost =>
        obtain ⟨rest, rfl⟩ := List.head?_eq_some_iff.mp innermost
        exact .inr (.inl ⟨b, kind, rfl, by simpa using h⟩)
      · cases h
  · exact .inr (.inr ⟨bracket, (Option.some.inj ((step_other bracket).symm.trans h)).symm⟩)

theorem scan_cons : scan kinds inside (c :: s) =
    (step kinds inside c).bind fun now => scan kinds now s := by
  rw [scan, List.foldlM_cons]
  rfl

theorem scan_cons_eq_some_iff : scan kinds inside (c :: s) = some after ↔
    ∃ now, step kinds inside c = some now ∧ scan kinds now s = some after := by
  rw [scan_cons, Option.bind_eq_some_iff]

theorem scan_singleton : scan kinds inside [c] = step kinds inside c := by
  rw [scan_cons]
  exact Option.bind_fun_some _

theorem scan_append : scan kinds inside (s ++ t) =
    (scan kinds inside s).bind fun now => scan kinds now t := by
  rw [scan, List.foldlM_append]
  rfl

theorem scan_of_others (others : ∀ c ∈ s, ¬IsBracket kinds c) :
    scan kinds inside s = some inside := by
  induction s with
  | nil => rfl
  | cons c s ih =>
      obtain ⟨first, others⟩ := List.forall_mem_cons.mp others
      rw [scan_cons, step_other first, Option.bind_some, ih others]

theorem Balanced.append (hs : Balanced kinds s) (ht : Balanced kinds t) :
    Balanced kinds (s ++ t) := by
  induction hs with
  | nil => exact ht
  | plain other _ ih => exact .plain other ih
  | @pair b inner rest kind hi _ _ ih =>
      have moved : b.opener :: (inner ++ b.closer :: rest) ++ t =
          b.opener :: (inner ++ b.closer :: (rest ++ t)) := by simp
      exact moved ▸ .pair kind hi ih

/-- A balanced text leaves the brackets around it as they are. -/
theorem Balanced.scan (h : Balanced kinds s) : scan kinds inside s = some inside := by
  induction h generalizing inside with
  | nil => rfl
  | plain other _ ih => rw [scan_cons, step_other other, Option.bind_some, ih]
  | pair kind _ _ inner rest =>
      rw [scan_cons, step_opener kind, Option.bind_some, scan_append, inner, Option.bind_some,
        scan_cons, step_closer_cons kind, Option.bind_some, rest]

/-- A text that closes the open brackets `inside` one by one, and is balanced in between. -/
def Unwinds (kinds : List Bracket) : List Bracket → List Char → Prop
  | [], s => Balanced kinds s
  | b :: inside, s =>
      ∃ front back, s = front ++ b.closer :: back ∧ Balanced kinds front ∧ Unwinds kinds inside back

theorem Balanced.unwinds (hs : Balanced kinds s) (ht : Unwinds kinds inside t) :
    Unwinds kinds inside (s ++ t) := by
  cases inside with
  | nil => exact hs.append ht
  | cons b inside =>
      obtain ⟨front, back, rfl, hf, hb⟩ := ht
      exact ⟨s ++ front, back, (List.append_assoc ..).symm, hs.append hf, hb⟩

theorem unwinds_of_scan (h : scan kinds inside s = some []) : Unwinds kinds inside s := by
  induction s generalizing inside with
  | nil =>
      cases h
      exact .nil
  | cons c s ih =>
      obtain ⟨now, first, rest⟩ := scan_cons_eq_some_iff.mp h
      obtain ⟨b, kind, rfl, rfl⟩ | ⟨b, -, rfl, rfl⟩ | ⟨other, rfl⟩ := step_cases first
      · obtain ⟨front, back, rfl, hf, hb⟩ := ih rest
        have pair : Balanced kinds (b.opener :: (front ++ [b.closer])) := .pair kind hf .nil
        simpa using pair.unwinds hb
      · exact ⟨[], s, rfl, .nil, ih rest⟩
      · exact Balanced.unwinds (.plain other .nil) (ih rest)

theorem balanced_iff : Balanced kinds s ↔ scan kinds [] s = some [] :=
  ⟨Balanced.scan, unwinds_of_scan⟩

instance : Decidable (Balanced kinds s) := decidable_of_iff _ balanced_iff.symm

/-- Of each kind, what was open and what a text opens is closed in it or open after it. -/
theorem count_scan (kind : b ∈ kinds) (h : scan kinds inside s = some after) :
    s.count b.closer + after.count b = s.count b.opener + inside.count b := by
  induction s generalizing inside with
  | nil =>
      cases h
      simp
  | cons c s ih =>
      obtain ⟨now, first, rest⟩ := scan_cons_eq_some_iff.mp h
      have counted := ih rest
      obtain ⟨d, -, rfl, rfl⟩ | ⟨d, -, rfl, rfl⟩ | ⟨other, rfl⟩ := step_cases first
      · simp only [List.count_cons, beq_iff_eq, Bracket.opener_ne_closer, Bracket.opener_inj,
          if_false] at counted ⊢
        omega
      · simp only [List.count_cons, beq_iff_eq, Bracket.closer_ne_opener, Bracket.closer_inj,
          if_false] at counted ⊢
        omega
      · have opens : c ≠ b.opener := fun he => other ⟨b, kind, .inl he⟩
        have closes : c ≠ b.closer := fun he => other ⟨b, kind, .inr he⟩
        simp only [List.count_cons, beq_iff_eq, opens, closes, if_false] at counted ⊢
        exact counted

/-- No front of a balanced text closes more brackets of a kind than it opens. -/
theorem Balanced.count_closer_le (h : Balanced kinds s) (kind : b ∈ kinds) {front : List Char}
    (isFront : front <+: s) : front.count b.closer ≤ front.count b.opener := by
  obtain ⟨back, rfl⟩ := isFront
  have scanned := balanced_iff.mp h
  rw [scan_append] at scanned
  obtain ⟨now, first, -⟩ := Option.bind_eq_some_iff.mp scanned
  have counted := count_scan kind first
  rw [List.count_nil] at counted
  omega

theorem isBracket_opener_iff : IsBracket kinds b.opener ↔ b ∈ kinds := by
  simp [IsBracket]

theorem isBracket_closer_iff : IsBracket kinds b.closer ↔ b ∈ kinds := by
  simp [IsBracket]

theorem step_of_all (h : step Bracket.all inside c = some after) (outer : List Bracket) :
    step kinds (inside.filter (· ∈ kinds) ++ outer) c =
      some (after.filter (· ∈ kinds) ++ outer) := by
  obtain ⟨b, -, rfl, rfl⟩ | ⟨b, -, rfl, rfl⟩ | ⟨other, rfl⟩ := step_cases h
  · by_cases kind : b ∈ kinds
    · rw [step_opener kind, List.filter_cons_of_pos (by simpa using kind), List.cons_append]
    · rw [step_other (mt isBracket_opener_iff.mp kind),
        List.filter_cons_of_neg (by simpa using kind)]
  · by_cases kind : b ∈ kinds
    · rw [List.filter_cons_of_pos (by simpa using kind), List.cons_append,
        step_closer_cons kind]
    · rw [step_other (mt isBracket_closer_iff.mp kind),
        List.filter_cons_of_neg (by simpa using kind)]
  · exact step_other fun ⟨b, _, hb⟩ => other ⟨b, b.mem_all, hb⟩

/-- What a text does to all brackets it does to those of some kinds, whatever is open around
them. -/
theorem scan_of_all (h : scan Bracket.all inside s = some after) (outer : List Bracket) :
    scan kinds (inside.filter (· ∈ kinds) ++ outer) s =
      some (after.filter (· ∈ kinds) ++ outer) := by
  induction s generalizing inside with
  | nil =>
      cases h
      rfl
  | cons c s ih =>
      obtain ⟨now, first, rest⟩ := scan_cons_eq_some_iff.mp h
      rw [scan_cons, step_of_all first, Option.bind_some, ih rest]

theorem balanced_of_all (h : Balanced Bracket.all s) : Balanced kinds s :=
  balanced_iff.mpr (scan_of_all (balanced_iff.mp h) [])

end Wiring.Text
