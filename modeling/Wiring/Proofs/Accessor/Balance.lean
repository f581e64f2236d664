import Wiring.Proofs.Accessor.Awaiting
import Wiring.Proofs.Config.Flags
import Wiring.Proofs.Text.Balance

/-!
Brackets in the text of an accessor. The form opens brackets in one part and closes them in another,
so each part is taken with the brackets that it finds open and those that it leaves open. Names in
snake case and lines that are indented have the brackets that they had before.
-/
namespace Wiring.Text

variable {kinds inside before mid after : List Bracket} {c : Char}

theorem not_isBracket_of_isAlpha (letter : c.isAlpha) : ¬IsBracket kinds c := by
  rintro ⟨b, -, rfl | rfl⟩ <;> cases b <;> exact absurd letter (by decide)

theorem code_of_isBracket (h : IsBracket kinds c) : 32 < c.toNat ∧ c.toNat < 128 := by
  obtain ⟨b, -, rfl | rfl⟩ := h <;> cases b <;> decide

/-- Blanks and line ends are no brackets. -/
theorem not_isBracket_of_le (low : c.toNat ≤ 32) : ¬IsBracket kinds c :=
  fun h => absurd (code_of_isBracket h).1 (not_lt.mpr low)

/-- A character in lower case brings the brackets that it brings itself. -/
theorem scan_toLower : scan kinds inside (toLower c) = step kinds inside c := by
  by_cases ascii : c.toNat < 128
  · rw [toLower_ascii ascii, scan_singleton]
    by_cases capital : c.isUpper
    · have letter : c.isAlpha := Bool.or_eq_true_iff.2 (.inl capital)
      rw [step_other (not_isBracket_of_isAlpha letter),
        step_other (not_isBracket_of_isAlpha (isAlpha_toLower capital))]
    · rw [toLower_of_not_isUpper capital]
  · have own : ¬IsBracket kinds c := fun h => ascii (code_of_isBracket h).2
    have others : ∀ d ∈ toLower c, ¬IsBracket kinds d := by
      intro d hd bracket
      obtain code | code | rfl | rfl := code_of_mem_toLower (not_lt.mp ascii) hd
      · exact absurd (code_of_isBracket bracket).2 (by omega)
      · exact absurd (code_of_isBracket bracket).1 (by omega)
      · exact not_isBracket_of_isAlpha (by decide) bracket
      · exact not_isBracket_of_isAlpha (by decide) bracket
    rw [step_other own, scan_of_others others]

section Layout

variable {α : Type} {char : α → Char} {feed : List α}

theorem scan_laid (blank : ∀ a ∈ feed, ¬IsBracket kinds (char a)) (a : α) (next : Option α) :
    scan kinds inside ((laid char feed a next).map char) = step kinds inside (char a) := by
  rw [laid]
  split
  · next feeds =>
    have blanks : ∀ c ∈ feed.map char, ¬IsBracket kinds c := List.forall_mem_map.mpr blank
    rw [feeds, step_other (not_isBracket_of_le (by decide)), scan_of_others blanks]
  · split
    · next dropped =>
      rw [dropped.1, step_other (not_isBracket_of_le (by decide))]
      rfl
    · exact scan_singleton

/-- Laying out adds no brackets and takes none away. -/
theorem scan_relined (blank : ∀ a ∈ feed, ¬IsBracket kinds (char a)) (t : List α) :
    scan kinds inside ((relined char feed t).map char) = scan kinds inside (t.map char) := by
  induction t generalizing inside with
  | nil => rfl
  | cons a t ih =>
      rw [relined, List.map_append, scan_append, scan_laid blank, List.map_cons, scan_cons]
      exact congrArg _ (funext fun now => ih)

end Layout

namespace Marked

/-- A text that finds the brackets `before` open and leaves `after` open, whatever else is open
around it. -/
def Turns (kinds before after : List Bracket) (t : Marked) : Prop :=
  ∀ outer, scan kinds (before.filter (· ∈ kinds) ++ outer) (chars t) =
    some (after.filter (· ∈ kinds) ++ outer)

variable {s t : Marked} {text : String}

@[simp]
theorem chars_append (s t : Marked) : chars (s ++ t) = chars s ++ chars t := List.map_append

@[simp]
theorem chars_given (text : String) : chars (given text) = text.toList := by
  simp [chars, given, Function.comp_def]

@[simp]
theorem chars_fixed (text : String) : chars (fixed text) = text.toList := by
  simp [chars, fixed, Function.comp_def]

/-- A part of the form, for which it is checked what brackets it leaves open. -/
theorem turns_fixed (after : List Bracket) (h : scan Bracket.all before text.toList = some after) :
    Turns kinds before after (fixed text) := by
  intro outer
  rw [chars_fixed]
  exact scan_of_all h outer

/-- A part of the form that is balanced itself. -/
theorem turns_plain (h : Balanced Bracket.all text.toList) :
    Turns kinds inside inside (fixed text) :=
  turns_fixed _ h.scan

theorem turns_of_balanced (h : Balanced kinds (chars t)) : Turns kinds inside inside t :=
  fun _ => h.scan

theorem turns_margin (levels : Nat) : Turns kinds inside inside (margin levels) := by
  have blank : ∀ g ∈ margin levels, ¬IsBracket kinds g.char :=
    forall_mem_margin (not_isBracket_of_le (by decide)) levels
  exact fun _ => scan_of_others (List.forall_mem_map.mpr blank)

theorem turns_nil : Turns kinds inside inside [] :=
  fun _ => rfl

theorem turns_given (h : Balanced kinds text.toList) : Turns kinds inside inside (given text) :=
  turns_of_balanced ((chars_given text).symm ▸ h)

namespace Turns

theorem balanced (h : Turns kinds [] [] t) : Balanced kinds (chars t) :=
  balanced_iff.mpr (h [])

theorem append (hs : Turns kinds before mid s) (ht : Turns kinds mid after t) :
    Turns kinds before after (s ++ t) := by
  intro outer
  rw [chars_append, scan_append, hs outer, Option.bind_some, ht outer]

/-- What is done with some brackets is done below others, too. -/
theorem under (h : Turns kinds before after t) (around : List Bracket) :
    Turns kinds (before ++ around) (after ++ around) t := by
  intro outer
  simpa only [List.filter_append, List.append_assoc] using h (around.filter (· ∈ kinds) ++ outer)

theorem flatMap {α : Type} {l : List α} {f : α → Marked}
    (h : ∀ a ∈ l, Turns kinds inside inside (f a)) : Turns kinds inside inside (l.flatMap f) := by
  induction l with
  | nil => exact turns_nil
  | cons a l ih =>
      obtain ⟨first, others⟩ := List.forall_mem_cons.mp h
      exact first.append (ih others)

theorem reflowed (h : Turns kinds before after t) (levels : Nat) :
    Turns kinds before after (reflowed levels t) := by
  have blank : ∀ g ∈ fixed "\n" ++ margin levels, ¬IsBracket kinds g.char :=
    forall_mem_feed (not_isBracket_of_le (by decide)) (not_isBracket_of_le (by decide)) levels
  intro outer
  rw [← h outer]
  exact scan_relined blank t

end Turns

end Marked

end Wiring.Text

namespace Wiring.Accessor

open Text (Marked Bracket Balanced balanced_iff balanced_of_all scan scan_append scan_cons)
open Text.Marked (fixed given indent chars Turns turns_fixed turns_plain turns_given turns_nil
  turns_of_balanced turns_margin)

variable {kinds inside : List Bracket}

/-- The snake case of a text has the brackets of the text. -/
theorem scan_snakeFrom (before : Option Char) (cs : List Char) :
    scan kinds inside (snakeFrom before cs) = scan kinds inside cs := by
  induction cs generalizing before inside with
  | nil => rfl
  | cons c cs ih =>
      have gap (wide : Bool) : Balanced kinds (if wide then ['_'] else []) := by
        cases wide <;> exact balanced_of_all (by decide)
      rw [snakeFrom, scan_append, scan_append, (gap _).scan, Option.bind_some, Text.scan_toLower,
        scan_cons]
      exact congrArg _ (funext fun now => ih (some c))

theorem balanced_functionName {name : String} (h : Balanced kinds name.toList) :
    Balanced kinds (functionName name).toList := by
  have snake : Balanced kinds (snakeCase name).toList := by
    rw [balanced_iff, snakeCase, String.toList_ofList, scan_snakeFrom]
    exact h.scan
  have mark : Balanced kinds "r#".toList ∧ Balanced kinds "_".toList :=
    ⟨balanced_of_all (by decide), balanced_of_all (by decide)⟩
  unfold functionName escapeKeyword
  split
  · exact String.toList_append ▸ mark.1.append snake
  · split
    · exact String.toList_append ▸ snake.append mark.2
    · exact snake

theorem scan_dropColons (cs : List Char) :
    scan kinds inside (Subject.dropColons cs) = scan kinds inside cs := by
  have colons : Balanced kinds [':', ':'] := balanced_of_all (by decide)
  fun_induction Subject.dropColons cs with
  | case1 rest ih =>
      have split : ':' :: ':' :: rest = [':', ':'] ++ rest := rfl
      rw [ih, split, scan_append, colons.scan, Option.bind_some]
  | case2 => rfl

namespace Subject

structure IsBalanced (kinds : List Bracket) (s : Subject) : Prop where
  className : Balanced kinds s.className.toList
  runtimeCrate : Balanced kinds s.runtimeCrate.toList
  function : ∀ name, s.constructor.style = .function name → Balanced kinds name.toList
  names : ∀ a ∈ s.arguments, Balanced kinds a.name.toList
  passed : ∀ a ∈ s.arguments, ∀ t, a.source.text? = some t → Balanced kinds (chars t)

variable {s : Subject}

theorem turns_awaiting (s : Subject) : Turns kinds inside inside s.awaiting := by
  unfold Subject.awaiting
  split
  · exact turns_plain (by decide)
  · exact turns_nil

theorem turns_binder (s : Subject) : Turns kinds inside inside s.binder := by
  unfold Subject.binder
  split <;> exact turns_plain (by decide)

namespace IsBalanced

theorem balanced_crateName (h : s.IsBalanced kinds) : Balanced kinds s.crateName.toList := by
  rw [balanced_iff, Subject.crateName, String.toList_ofList, scan_dropColons]
  exact h.runtimeCrate.scan

theorem turns_inCrate (h : s.IsBalanced kinds) {item : String}
    (plain : Balanced Bracket.all ("::" ++ item).toList) :
    Turns kinds inside inside (s.inCrate item) :=
  (turns_given h.runtimeCrate).append (turns_plain plain)

theorem turns_policyPath (h : s.IsBalanced kinds) : Turns kinds inside inside s.policyPath := by
  refine h.turns_inCrate ?_
  cases s.policy <;> decide +kernel

theorem turns_className (h : s.IsBalanced kinds) : Turns kinds inside inside (given s.className) :=
  turns_given h.className

theorem turns_function (h : s.IsBalanced kinds) : Turns kinds inside inside (given s.function) :=
  turns_given (balanced_functionName h.className)

theorem turns_functionCall (h : s.IsBalanced kinds) {name : String}
    (called : Balanced kinds name.toList) : Turns kinds [] [] (s.functionCall name) := by
  have head : Turns kinds [] [] (given s.className ++ fixed "::" ++ given name) :=
    h.turns_className.append (turns_plain (by decide)) |>.append (turns_given called)
  have argument : ∀ t ∈ s.arguments.filterMap (fun a => a.source.text?),
      Turns kinds [.round] [.round] (fixed "    " ++ t ++ fixed ",\n") := by
    intro t ht
    obtain ⟨a, ha, hs⟩ := List.mem_filterMap.mp ht
    exact (turns_plain (by decide)).append (turns_of_balanced (h.passed a ha t hs))
      |>.append (turns_plain (by decide))
  unfold Subject.functionCall
  split
  · exact head.append (turns_plain (by decide))
  · exact head.append (turns_fixed [.round] (by decide)) |>.append (.flatMap argument)
      |>.append (turns_fixed [] (by decide))

theorem turns_literalField (h : s.IsBalanced kinds) {a : Argument} (ha : a ∈ s.arguments) :
    Turns kinds inside inside (literalField a) := by
  unfold Subject.literalField
  split
  · next t ht =>
    exact (turns_plain (by decide)).append (turns_given (h.names a ha))
      |>.append (turns_plain (by decide)) |>.append (turns_of_balanced (h.passed a ha t ht))
      |>.append (turns_plain (by decide))
  · exact turns_nil

theorem turns_literalCall (h : s.IsBalanced kinds) : Turns kinds [] [] s.literalCall := by
  have rest : Turns kinds [.curly] [.curly] (if s.arguments.any fun a => a.source.text?.isNone then
      fixed "    ..Default::default()\n" else []) := by
    split
    · exact turns_plain (by decide)
    · exact turns_nil
  exact h.turns_className.append (turns_fixed [.curly] (by decide))
    |>.append (.flatMap fun a ha => h.turns_literalField ha) |>.append rest
    |>.append (turns_fixed [] (by decide))

theorem turns_call (h : s.IsBalanced kinds) : Turns kinds [] [] s.call := by
  unfold Subject.call
  split
  · next name style => exact h.turns_functionCall (h.function name style)
  · exact h.turns_literalCall

/-- What is opened before the call and after it is one parenthesis, that of the result or that of
the mapping of errors. -/
theorem exists_turns_opening (h : s.IsBalanced kinds) :
    ∃ wrapped, Turns kinds [] wrapped s.opening ∧ Turns kinds wrapped [.round] s.closing := by
  have error : Turns kinds [] [] (s.inCrate "DiError") := h.turns_inCrate (by decide)
  have mapped : Turns kinds [.round] [.round] (s.inCrate "DiError::producer") :=
    h.turns_inCrate (by decide)
  unfold Subject.opening Subject.closing
  cases s.constructor.isFallible with
  | true => exact ⟨[], turns_nil, (turns_fixed [.round] (by decide)).append mapped⟩
  | false =>
      refine ⟨[.round], ?_, turns_nil⟩
      cases s.policy.isAsync with
      | true =>
          exact (turns_plain (by decide)).append error |>.append (turns_fixed [.round] (by decide))
      | false => exact turns_fixed [.round] (by decide)

theorem turns_body (h : s.IsBalanced kinds) : Turns kinds [] [] s.body := by
  obtain ⟨wrapped, opening, closing⟩ := h.exists_turns_opening
  rw [body_eq]
  exact opening.append (h.turns_call.under wrapped) |>.append (turns_awaiting s) |>.append closing
    |>.append (turns_fixed [] (by decide))

theorem turns_indent_body (h : s.IsBalanced kinds) (levels : Nat) :
    Turns kinds [] [] (indent levels s.body) := by
  rw [Subject.indent_body]
  exact (turns_margin levels).append (h.turns_body.reflowed levels)
    |>.append (turns_plain (by decide))

theorem turns_heading (h : s.IsBalanced kinds) : Turns kinds [] [] s.heading := by
  refine (turns_plain (by decide +kernel)).append h.turns_className |>.append (turns_plain ?_)
  cases s.policy <;> decide +kernel

theorem turns_signature (h : s.IsBalanced kinds) {type : Marked} (typed : Turns kinds [] [] type) :
    Turns kinds [] [.curly] (s.signature type) :=
  have registry : Turns kinds [.round] [.round] (s.inCrate "Registry") :=
    h.turns_inCrate (by decide)
  have result : Turns kinds [] [] (s.inCrate "DiResult") := h.turns_inCrate (by decide)
  (turns_fixed [.round] (by decide)).append registry |>.append (turns_fixed [] (by decide))
    |>.append result |>.append (turns_plain (by decide)) |>.append typed
    |>.append (turns_fixed [.curly] (by decide))

theorem turns_policyConstant (h : s.IsBalanced kinds) : Turns kinds [] [] s.policyConstant :=
  have policy : Turns kinds [] [] (s.inCrate "RegistrationPolicy") := h.turns_inCrate (by decide)
  (turns_plain (by decide)).append policy |>.append (turns_plain (by decide))
    |>.append h.turns_policyPath |>.append (turns_plain (by decide))

/-- A function that registers: its block, the parenthesis of the call and the block of the producer
are closed together. -/
theorem turns_registering (h : s.IsBalanced kinds) {first call parameter producer last : String}
    (levels : Nat) (plain : Balanced Bracket.all first.toList)
    (calls : scan Bracket.all [.curly] call.toList = some [.round, .curly])
    (typed : Balanced Bracket.all parameter.toList)
    (opens : scan Bracket.all [.round, .curly] producer.toList = some [.curly, .round, .curly])
    (closes : scan Bracket.all [.curly, .round, .curly] last.toList = some []) :
    Turns kinds [] [] (fixed first ++ given s.function ++ s.signature (given s.className)
      ++ fixed call ++ s.policyPath ++ fixed ", |" ++ s.binder ++ fixed parameter
      ++ s.inCrate "Registry" ++ fixed producer ++ indent levels s.body ++ fixed last) :=
  have registry : Turns kinds [.round, .curly] [.round, .curly] (s.inCrate "Registry") :=
    h.turns_inCrate (by decide)
  (turns_plain plain).append h.turns_function |>.append (h.turns_signature h.turns_className)
    |>.append (turns_fixed _ calls) |>.append h.turns_policyPath |>.append (turns_plain (by decide))
    |>.append (turns_binder s) |>.append (turns_plain typed) |>.append registry
    |>.append (turns_fixed _ opens) |>.append ((h.turns_indent_body levels).under _)
    |>.append (turns_fixed _ closes)

/-- An implementation, with what stands before its trait. -/
theorem turns_implementing (h : s.IsBalanced kinds) {t : Marked} {item method last : String}
    (front : Turns kinds [] [] t) (named : Balanced Bracket.all ("::" ++ item).toList)
    (begins : Balanced Bracket.all method.toList)
    (closes : scan Bracket.all [.curly, .curly] last.toList = some []) :
    Turns kinds [] [] (t ++ s.inCrate item ++ fixed " for " ++ given s.className
      ++ fixed " \x7b\n" ++ s.policyConstant ++ fixed method ++ s.signature (fixed "Self")
      ++ fixed "        " ++ given s.function ++ fixed last) :=
  have signature : Turns kinds [] [.curly] (s.signature (fixed "Self")) :=
    h.turns_signature (turns_plain (by decide))
  front.append (h.turns_inCrate named) |>.append (turns_plain (by decide))
    |>.append h.turns_className |>.append (turns_fixed [.curly] (by decide))
    |>.append (h.turns_policyConstant.under _) |>.append (turns_plain begins)
    |>.append (signature.under _) |>.append (turns_plain (by decide)) |>.append h.turns_function
    |>.append (turns_fixed _ closes)

theorem turns_syncFunction (h : s.IsBalanced kinds) : Turns kinds [] [] s.syncFunction :=
  h.turns_registering 2 (by decide) (by decide +kernel) (by decide) (by decide) (by decide +kernel)

theorem turns_asyncFunction (h : s.IsBalanced kinds) : Turns kinds [] [] s.asyncFunction :=
  h.turns_registering 3 (by decide) (by decide +kernel) (by decide) (by decide) (by decide +kernel)

theorem turns_syncImplementation (h : s.IsBalanced kinds) :
    Turns kinds [] [] s.syncImplementation :=
  h.turns_implementing (turns_plain (by decide)) (by decide) (by decide) (by decide +kernel)

theorem turns_asyncImplementation (h : s.IsBalanced kinds) :
    Turns kinds [] [] s.asyncImplementation := by
  have front : Turns kinds [] [] (fixed "#[" ++ given s.crateName
      ++ fixed "::async_trait]\nimpl ") :=
    (turns_fixed [.square] (by decide)).append (turns_given h.balanced_crateName)
      |>.append (turns_fixed [] (by decide +kernel))
  exact h.turns_implementing front (by decide) (by decide) (by decide +kernel)

/-- The text of an accessor leaves no bracket open. -/
theorem turns_text (h : s.IsBalanced kinds) : Turns kinds [] [] s.text := by
  refine h.turns_heading.append ?_
  split
  · exact h.turns_asyncFunction.append h.turns_asyncImplementation
  · exact h.turns_syncFunction.append h.turns_syncImplementation

end IsBalanced

end Subject

theorem turns_lookupText {d : Dependency} (h : Balanced kinds d.typeName.toList) :
    Turns kinds [] [] (lookupText d) := by
  have call : Turns kinds [] [] (if d.policy.isAsync then
      fixed "registry.resolve_async::<" ++ given d.typeName ++ fixed ">().await?"
      else fixed "registry.resolve::<" ++ given d.typeName ++ fixed ">()?") := by
    split
    · exact (turns_plain (by decide)).append (turns_given h) |>.append (turns_plain (by decide))
    · exact (turns_plain (by decide)).append (turns_given h) |>.append (turns_plain (by decide))
  obtain ⟨call, turns, same⟩ : ∃ call, Turns kinds [] [] call ∧ lookupText d =
      if d.isNullable then fixed "Some(" ++ call ++ fixed ")" else call := ⟨_, call, rfl⟩
  rw [same]
  split
  · exact (turns_fixed [.round] (by decide)).append (turns.under _)
      |>.append (turns_fixed [] (by decide))
  · exact turns

theorem balanced_synthesized (x : Parameter) (heuristics : Bool) :
    Balanced kinds (x.synthesized heuristics).toList := by
  have all : ∀ text ∈ literals, Balanced Bracket.all text.toList := by decide +kernel
  exact balanced_of_all (all _ (synthesized_mem_literals x heuristics))

end Wiring.Accessor
