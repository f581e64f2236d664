import Mathlib.Data.List.Induction
import Wiring.Accessor.Rendering

/-!
How the call of a producer is laid out. Its lines are indented one by one, which comes to the same
as putting a line feed with a margin for each of its line feeds and leaving out the carriage returns
before them.
-/
namespace Wiring.Text

variable {α : Type} (char : α → Char)

/-- What the character `a` becomes where `next` follows. -/
def laid (feed : List α) (a : α) (next : Option α) : List α :=
  if char a = '\n' then feed
  else if char a = '\r' ∧ next.map char = some '\n' then []
  else [a]

/-- A text with `feed` for each line feed and without the carriage returns before line feeds. -/
def relined (feed : List α) : List α → List α
  | [] => []
  | a :: rest => laid char feed a rest.head? ++ relined feed rest

variable {char} {feed margin stop s t u : List α} {a : α}

theorem relined_append
    (apart : ∀ a ∈ s.getLast?, ∀ b ∈ t.head?, char a = '\r' → char b ≠ '\n') :
    relined char feed (s ++ t) = relined char feed s ++ relined char feed t := by
  induction s with
  | nil => rfl
  | cons a s ih =>
      cases s with
      | nil =>
          have same : laid char feed a t.head? = laid char feed a none := by
            cases t with
            | nil => rfl
            | cons b t =>
                have kept : ¬ (char a = '\r' ∧ char b = '\n') :=
                  fun h => apart a (by simp) b (by simp) h.1 h.2
                simp only [laid, List.head?_cons, Option.map_some, Option.some.injEq, kept,
                  Option.map_none, reduceCtorEq, and_false]
          simp only [List.singleton_append, relined, same, List.head?_nil, List.append_nil]
      | cons b s =>
          rw [List.cons_append, relined, ih (by simpa using apart), ← List.append_assoc]
          rfl

/-- A part that neither begins with a line feed nor ends in a carriage return is laid out alone. -/
theorem infix_relined (first : ∀ a ∈ t.head?, char a ≠ '\n')
    (last : ∀ a ∈ t.getLast?, char a ≠ '\r') (some_ : t ≠ []) (h : t <:+: u) :
    relined char feed t <:+: relined char feed u := by
  obtain ⟨s, v, rfl⟩ := h
  have ends : (s ++ t).getLast? = t.getLast? := by
    rw [List.getLast?_append, List.getLast?_eq_some_getLast some_, Option.some_or]
  rw [relined_append (by rw [ends]; exact fun a ha _ _ hr => absurd hr (last a ha)),
    relined_append fun _ _ b hb _ => first b hb]
  exact ⟨_, _, rfl⟩

theorem relined_of_line (line : ∀ a ∈ t, char a ≠ '\n') : relined char feed t = t := by
  induction t with
  | nil => rfl
  | cons a t ih =>
      obtain ⟨ha, line⟩ := List.forall_mem_cons.mp line
      have next : t.head?.map char ≠ some '\n' := by
        cases t with
        | nil => simp
        | cons b t => simpa using line b (by simp)
      simp only [relined, laid, ha, next, and_false, if_false, ih line, List.singleton_append]

theorem relined_cons_feed (ha : char a = '\n') :
    relined char feed (a :: t) = feed ++ relined char feed t := by
  simp only [relined, laid, ha, if_true]

theorem relined_line (line : ∀ a ∈ s, char a ≠ '\n') (ha : char a = '\n') :
    relined char feed (s ++ a :: t) = dropReturn char s ++ feed ++ relined char feed t := by
  induction s using List.reverseRecOn with
  | nil => exact relined_cons_feed ha
  | append_singleton s b =>
      have front : ∀ a ∈ s, char a ≠ '\n' := fun a h => line a (by simp [h])
      have hb : char b ≠ '\n' := line b (by simp)
      by_cases hr : char b = '\r'
      · have gone : laid char feed b (some a) = [] := by simp [laid, hr, ha]
        rw [List.append_assoc, List.singleton_append,
          relined_append (by simpa using fun _ _ _ => hb), relined_of_line front, relined,
          List.head?_cons, gone, relined_cons_feed ha]
        simp [dropReturn, hr]
      · rw [relined_append (by simpa using fun h => absurd h hr), relined_of_line line,
          relined_cons_feed ha]
        simp [dropReturn, hr]

/-- Lines that are put between `margin` and `stop`, and the last of which has no line feed. -/
theorem flatMap_linesFrom {begun : List α} (line : ∀ b ∈ begun, char b ≠ '\n')
    (ha : char a ≠ '\n') :
    (linesFrom char begun (t ++ [a])).flatMap (fun line => margin ++ line ++ stop) =
      margin ++ relined char (stop ++ margin) (begun.reverse ++ (t ++ [a])) ++ stop := by
  induction t generalizing begun with
  | nil =>
      have last : ∀ b ∈ begun.reverse ++ [a], char b ≠ '\n' := by
        simp only [List.mem_append, List.mem_reverse, List.mem_singleton]
        rintro b (hb | rfl)
        · exact line b hb
        · exact ha
      rw [List.nil_append, relined_of_line last]
      simp [linesFrom, ha]
  | cons b t ih =>
      by_cases hb : char b = '\n'
      · rw [List.cons_append, relined_line (by simpa using line) hb, linesFrom, if_pos hb,
          List.flatMap_cons, ih (by simp)]
        simp only [List.reverse_nil, List.nil_append, List.append_assoc]
      · rw [List.cons_append, linesFrom, if_neg hb, ih (List.forall_mem_cons.mpr ⟨hb, line⟩),
          List.reverse_cons, List.append_assoc _ [b], List.singleton_append]

end Wiring.Text

namespace Wiring.Text.Marked

def margin (levels : Nat) : Marked := fixed (String.ofList (List.replicate (4 * levels) ' '))

theorem margin_eq (levels : Nat) : margin levels = List.replicate (4 * levels) ⟨' ', .fixed⟩ := by
  simp [margin, fixed]

theorem forall_mem_margin {p : Glyph → Prop} (blank : p ⟨' ', .fixed⟩) (levels : Nat) :
    ∀ g ∈ margin levels, p g := by
  intro g hg
  rw [margin_eq] at hg
  exact (List.mem_replicate.mp hg).2 ▸ blank

/-- What stands between two lines is a line feed and blanks. -/
theorem forall_mem_feed {p : Glyph → Prop} (feed : p ⟨'\n', .fixed⟩) (blank : p ⟨' ', .fixed⟩)
    (levels : Nat) : ∀ g ∈ fixed "\n" ++ margin levels, p g := by
  have first : ∀ g ∈ fixed "\n", p g := by simpa [fixed] using feed
  exact List.forall_mem_append.mpr ⟨first, forall_mem_margin blank levels⟩

def reflowed (levels : Nat) (t : Marked) : Marked :=
  relined Glyph.char (fixed "\n" ++ margin levels) t

variable {levels : Nat} {t : Marked} {g : Glyph}

theorem indent_eq (hg : g.char ≠ '\n') : indent levels (t ++ [g]) =
    margin levels ++ reflowed levels (t ++ [g]) ++ fixed "\n" :=
  flatMap_linesFrom (by simp) hg

end Wiring.Text.Marked

namespace Wiring

def Policy.producerLevels (p : Policy) : Nat := if p.isAsync then 3 else 2

namespace Accessor.Subject

open Text (Marked)
open Text.Marked (fixed given indent margin reflowed indent_eq)

def opening (s : Subject) : Marked :=
  if s.constructor.isFallible then []
  else if s.policy.isAsync then fixed "Ok::<_, " ++ s.inCrate "DiError" ++ fixed ">("
  else fixed "Ok("

def closing (s : Subject) : Marked :=
  if s.constructor.isFallible then fixed ".map_err(" ++ s.inCrate "DiError::producer" else []

def awaiting (s : Subject) : Marked := if s.constructor.isAsync then fixed ".await" else []

theorem body_eq (s : Subject) :
    s.body = s.opening ++ s.call ++ s.awaiting ++ s.closing ++ fixed ")" := by
  unfold body opening closing awaiting
  cases s.constructor.isFallible <;> cases s.policy.isAsync <;> simp

theorem indent_body (s : Subject) (levels : Nat) :
    indent levels s.body = margin levels ++ reflowed levels s.body ++ fixed "\n" := by
  have paren : fixed ")" = [⟨')', .fixed⟩] := by decide
  rw [body_eq, paren, indent_eq (by decide)]

/-- What stands in the body of the producer stands reflowed in the text of the accessor. -/
theorem reflowed_infix_text (s : Subject) {t : Marked} (inBody : t <:+: s.body)
    (first : ∀ g ∈ t.head?, g.char ≠ '\n') (last : ∀ g ∈ t.getLast?, g.char ≠ '\r')
    (some_ : t ≠ []) : reflowed s.policy.producerLevels t <:+: s.text := by
  have laidOut (levels : Nat) : reflowed levels t <:+: indent levels s.body :=
    (Text.infix_relined first last some_ inBody).trans
      ⟨margin levels, fixed "\n", (s.indent_body levels).symm⟩
  unfold text Policy.producerLevels
  split
  · have inFunction : indent 3 s.body <:+: s.asyncFunction := ⟨_, _, rfl⟩
    exact (laidOut 3).trans (inFunction.trans ⟨s.heading, _, List.append_assoc ..⟩)
  · have inFunction : indent 2 s.body <:+: s.syncFunction := ⟨_, _, rfl⟩
    exact (laidOut 2).trans (inFunction.trans ⟨s.heading, _, List.append_assoc ..⟩)

end Accessor.Subject

end Wiring
