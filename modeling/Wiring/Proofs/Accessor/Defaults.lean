import Wiring.Proofs.Accessor.Layout
import Wiring.Proofs.Generation.Locality

/-!
How declared defaults come into generated code. The expression stands in the call as it was given,
and in the accessor as it comes out of the layout of that call: as given exactly if it has no line
feed.
-/
namespace Wiring.Text

variable {α : Type} {char : α → Char} {feed t : List α}

/-- The layout of a text is that of its characters. -/
theorem map_relined :
    (relined char feed t).map char = relined id (feed.map char) (t.map char) := by
  induction t with
  | nil => rfl
  | cons a t ih =>
      have alike : (laid char feed a t.head?).map char =
          laid id (feed.map char) (char a) (t.map char).head? := by
        simp only [laid, List.head?_map, id_eq, Option.map_id_fun, apply_ite (List.map char)]
        rfl
      rw [relined, List.map_append, ih, alike]
      rfl

/-- Each line feed makes a text longer, though the carriage return before it goes. -/
theorem length_relined (long : 3 ≤ feed.length) :
    t.length + t.countP (fun a => char a = '\n')
      + (if t.head?.map char = some '\n' then 1 else 0) ≤ (relined char feed t).length := by
  induction t with
  | nil => simp [relined]
  | cons a t ih =>
      rw [relined, laid, List.length_append, List.length_cons, List.countP_cons, List.head?_cons,
        Option.map_some]
      by_cases feeds : char a = '\n'
      · simp only [feeds, decide_true, if_true]
        omega
      · by_cases dropped : char a = '\r' ∧ t.head?.map char = some '\n'
        · rw [if_pos dropped.2] at ih
          simp only [dropped, and_self, if_true, Option.some.injEq]
          simp
          omega
        · simp only [feeds, dropped, if_false, List.length_singleton, Option.some.injEq,
            decide_false, Bool.false_eq_true]
          omega

def reindented (levels : Nat) (text : String) : String :=
  String.ofList (relined id ('\n' :: List.replicate (4 * levels) ' ') text.toList)

theorem reindented_eq_iff {levels : Nat} (some_ : levels ≠ 0) (text : String) :
    reindented levels text = text ↔ '\n' ∉ text.toList := by
  rw [← String.toList_inj, reindented, String.toList_ofList]
  constructor
  · intro same feeds
    have long : 3 ≤ ('\n' :: List.replicate (4 * levels) ' ').length := by
      simp
      omega
    have longer := @length_relined _ id _ text.toList long
    have : 0 < text.toList.countP (fun a => id a = '\n') :=
      List.countP_pos_iff.mpr ⟨'\n', feeds, by decide⟩
    rw [same] at longer
    omega
  · intro line
    exact relined_of_line fun c hc feeds => line (feeds ▸ hc)

end Wiring.Text

namespace Wiring.Accessor

open Text (Marked)
open Text.Marked (fixed given chars reflowed)

theorem toList_toString (t : Marked) : t.toString.toList = chars t := String.toList_ofList

theorem chars_reflowed (levels : Nat) (t : Marked) :
    chars (reflowed levels t) = (Text.reindented levels t.toString).toList := by
  have feed : (fixed "\n" ++ Text.Marked.margin levels).map Text.Glyph.char =
      '\n' :: List.replicate (4 * levels) ' ' := by
    simp [Text.Marked.margin, fixed]
  rw [Text.reindented, toList_toString, String.toList_ofList, chars, reflowed, Text.map_relined,
    feed]
  rfl

theorem chars_reflowed_given (levels : Nat) (text : String) :
    chars (reflowed levels (given text)) = (Text.reindented levels text).toList := by
  rw [chars_reflowed, Text.Marked.toString_given]

def framed (expr : String) : Marked := fixed " " ++ given expr ++ fixed ","

theorem head?_framed (expr : String) : (framed expr).head? = some ⟨' ', .fixed⟩ := rfl

theorem getLast?_framed (expr : String) : (framed expr).getLast? = some ⟨',', .fixed⟩ :=
  List.getLast?_concat

theorem infix_reflowed_framed (levels : Nat) (expr : String) :
    reflowed levels (given expr) <:+: reflowed levels (framed expr) := by
  have blank : ∀ g ∈ (fixed " ").getLast?, g.char ≠ '\r' := by decide
  have comma : ∀ g ∈ (fixed ",").head?, g.char ≠ '\n' := by decide
  have parts : reflowed levels (framed expr) = reflowed levels (fixed " ") ++
      reflowed levels (given expr) ++ reflowed levels (fixed ",") := by
    rw [framed, reflowed, Text.relined_append fun _ _ g hg _ => comma g hg,
      Text.relined_append fun g hg _ _ hr => absurd hr (blank g hg)]
    rfl
  exact ⟨_, _, parts.symm⟩

namespace Subject

variable {s : Subject} {a : Argument} {expr : String}

theorem framed_infix_functionCall (ha : a ∈ s.arguments) (declared : a.source = .declared expr)
    (name : String) : framed expr <:+: s.functionCall name := by
  have passed : given expr ∈ s.arguments.filterMap fun a => a.source.text? :=
    List.mem_filterMap.mpr ⟨a, ha, by rw [declared]; rfl⟩
  have line : framed expr <:+: fixed "    " ++ given expr ++ fixed ",\n" :=
    ⟨fixed "   ", fixed "\n", by simp [framed, fixed]⟩
  unfold functionCall
  split
  · next none_ => simp [none_] at passed
  · have inLines := List.infix_of_mem_flatten (List.mem_map_of_mem
      (f := fun t : Marked => fixed "    " ++ t ++ fixed ",\n") passed)
    exact (line.trans inLines).trans ⟨_, _, rfl⟩

theorem framed_infix_literalCall (ha : a ∈ s.arguments) (declared : a.source = .declared expr) :
    framed expr <:+: s.literalCall := by
  have line : framed expr <:+: literalField a := by
    rw [literalField, declared]
    exact ⟨fixed "    " ++ given a.name ++ fixed ":", fixed "\n",
      by simp [framed, fixed, Source.text?]⟩
  have inFields : literalField a <:+: s.arguments.flatMap literalField := by
    rw [List.flatMap_def]
    exact List.infix_of_mem_flatten (List.mem_map_of_mem ha)
  rw [literalCall, List.append_assoc _ _ (fixed "\x7d")]
  exact (line.trans inFields).trans ⟨_, _, rfl⟩

theorem framed_infix_body (ha : a ∈ s.arguments) (declared : a.source = .declared expr) :
    framed expr <:+: s.body := by
  have inCall : framed expr <:+: s.call := by
    unfold call
    split
    · exact framed_infix_functionCall ha declared _
    · exact framed_infix_literalCall ha declared
  rw [body_eq, List.append_assoc, List.append_assoc]
  exact inCall.trans ⟨_, _, rfl⟩

/-- A declared default stands in the text of the accessor as the layout leaves it. -/
theorem reindented_infix_text (ha : a ∈ s.arguments) (declared : a.source = .declared expr) :
    (Text.reindented s.policy.producerLevels expr).toList <:+: chars s.text := by
  have first : ∀ g ∈ (framed expr).head?, g.char ≠ '\n' := by simp [head?_framed]
  have last : ∀ g ∈ (framed expr).getLast?, g.char ≠ '\r' := by simp [getLast?_framed]
  have some_ : framed expr ≠ [] := fun none_ => by simpa [none_] using head?_framed expr
  have inText := s.reflowed_infix_text (framed_infix_body ha declared) first last some_
  rw [← chars_reflowed_given]
  exact ((infix_reflowed_framed s.policy.producerLevels expr).trans inText).map _

end Subject

end Wiring.Accessor

namespace Wiring.AnnotatedClass

/-- A declared default stands in the code of the accessor, reindented as the call is, and that
leaves it as it was given exactly if it has no line feed. -/
theorem declared_default_in_code {c : AnnotatedClass} {managed : ManagedTypes} {config : Config}
    {a : GeneratedAccessor} {k : Constructor} {x : Parameter} {expr : String}
    (made : c.accessor managed config = .ok a) (hk : c.constructor = some k) (hx : x ∈ k.params)
    (value : x.dependency? managed = none) (declared : x.default = some expr) :
    (∃ before after, a.code = before ++ Text.reindented c.policy.producerLevels expr ++ after) ∧
      (Text.reindented c.policy.producerLevels expr = expr ↔ '\n' ∉ expr.toList) := by
  obtain ⟨k', callable, rfl⟩ := accessor_eq_ok_iff.mp made
  cases hk.symm.trans (constructor_of_callable callable)
  have argument : Accessor.argument k.style managed config.placeholderHeuristics x ∈
      (c.subject k managed config).arguments := List.mem_map_of_mem hx
  have source : (Accessor.argument k.style managed config.placeholderHeuristics x).source =
      .declared expr := by
    simp only [Accessor.argument, Accessor.source, value, declared]
  obtain ⟨before, after, parts⟩ := Accessor.Subject.reindented_infix_text argument source
  constructor
  · refine ⟨String.ofList before, String.ofList after, ?_⟩
    rw [Text.Marked.toString, ← parts, String.ofList_append, String.ofList_append,
      String.ofList_toList]
    rfl
  · refine Text.reindented_eq_iff ?_ expr
    unfold Policy.producerLevels
    split <;> decide

theorem hasPart_iff {part text : List Char} : hasPart part text ↔ part <:+: text := by
  induction text with
  | nil => simp [hasPart]
  | cons c rest ih => rw [hasPart, Bool.or_eq_true, List.isPrefixOf_iff_prefix, ih,
      List.infix_cons_iff]

def greeting (text : String) : Parameter := ⟨"greeting", .text, .positional, true, some text⟩

def greeter (text : String) : AnnotatedClass :=
  ⟨"Greeter", ⟨"src/greeter.rs", 1, 1⟩, .silent,
    some ⟨.function "new", false, false, [greeting text]⟩⟩

theorem default_of_greeter_in_code :
    (greeting "hello()").dependency? .empty = none ∧ (greeting "hello()").default = some "hello()" ∧
    ∃ a, (greeter "hello()").accessor .empty .standard = .ok a ∧
      (∃ before after, a.code =
        before ++ Text.reindented (greeter "hello()").policy.producerLevels "hello()" ++ after) ∧
      (Text.reindented (greeter "hello()").policy.producerLevels "hello()" = "hello()" ↔
        '\n' ∉ "hello()".toList) :=
  ⟨rfl, rfl, _, rfl, declared_default_in_code rfl rfl (List.mem_singleton_self _) rfl rfl⟩

/-- The two lines of a text come apart in the code: blanks get between them. -/
theorem default_of_two_lines_not_in_code :
    (greeting "\"first\nsecond\"").dependency? .empty = none ∧
    ∃ a, (greeter "\"first\nsecond\"").accessor .empty .standard = .ok a ∧
      ¬ "\"first\nsecond\"".toList <:+: a.code.toList :=
  ⟨rfl, _, rfl, by
    dsimp only
    rw [Accessor.toList_toString, ← hasPart_iff]
    decide +kernel⟩

end Wiring.AnnotatedClass
