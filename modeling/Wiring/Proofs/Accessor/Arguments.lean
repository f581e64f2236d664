import Wiring.Proofs.Accessor.Awaiting
import Wiring.Proofs.Text.Lines

/-!
How generated code passes arguments. The constructor call is a block of lines, one for each argument
and in the order of the parameters. The rest of the code is the same for all parameters, except for
the name under which the producer sees the registry.
-/
namespace Wiring

open Text (Marked IsFlat IsLine lineBreak)
open Text.Marked (fixed given margin reflowed)

namespace Accessor

def lookupCall (name : String) (policy : Policy) : String :=
  if policy.isAsync then "registry.resolve_async::<" ++ name ++ ">().await?"
  else "registry.resolve::<" ++ name ++ ">()?"

inductive Passes (managed : ManagedTypes) (heuristics : Bool) (x : Parameter) : String → Prop
  | service {name : String} {policy : Policy} (type : x.type = .named name)
      (found : managed.find? name = some policy) :
      Passes managed heuristics x (lookupCall name policy)
  | nullable {name : String} {policy : Policy} (type : x.type = .optional (.named name))
      (default : x.default ≠ none) (found : managed.find? name = some policy) :
      Passes managed heuristics x ("Some(" ++ lookupCall name policy ++ ")")
  | declared {expr : String} (value : x.dependency? managed = none)
      (default : x.default = some expr) : Passes managed heuristics x expr
  | synthesized (value : x.dependency? managed = none) (default : x.default = none) :
      Passes managed heuristics x (x.synthesized heuristics)

theorem toString_lookupText (d : Dependency) : (lookupText d).toString =
    if d.isNullable then "Some(" ++ lookupCall d.typeName d.policy ++ ")"
    else lookupCall d.typeName d.policy := by
  unfold lookupText lookupCall
  cases d.isNullable <;> cases d.policy.isAsync <;>
    simp only [Text.Marked.toString_append, Text.Marked.toString_fixed,
      Text.Marked.toString_given, Bool.false_eq_true, if_true, if_false]

end Accessor

namespace Parameter

open Accessor (Source source lookupText toString_lookupText Passes)

/-- A field that a literal leaves out: a value that is not required and declares no default. -/
def IsLeftOut (x : Parameter) (managed : ManagedTypes) : Prop :=
  x.dependency? managed = none ∧ x.required = false ∧ x.default = none

instance (x : Parameter) (managed : ManagedTypes) : Decidable (x.IsLeftOut managed) :=
  inferInstanceAs (Decidable (_ ∧ _))

def expression (x : Parameter) (managed : ManagedTypes) (heuristics : Bool) : String :=
  match x.dependency? managed with
  | some d => (lookupText d).toString
  | none => x.valueText heuristics

variable {x : Parameter} {managed : ManagedTypes} {heuristics : Bool}

theorem passes_expression (x : Parameter) (managed : ManagedTypes) (heuristics : Bool) :
    Passes managed heuristics x (x.expression managed heuristics) := by
  unfold expression
  split
  · next d hd =>
    obtain ⟨wanted, found⟩ := dependency?_eq_some_iff.mp hd
    rw [toString_lookupText]
    unfold wanted? at wanted
    split at wanted
    · next name type =>
      cases d
      cases wanted
      exact .service type found
    · next name type =>
      split at wanted
      · next default =>
        cases d
        cases wanted
        exact .nullable type (Option.isSome_iff_ne_none.mp default) found
      · cases wanted
    · cases wanted
  · next value =>
    cases default : x.default with
    | none => simpa only [valueText, default] using .synthesized value default
    | some expr => simpa only [valueText, default] using .declared value default

/-- No parameter is passed in two ways. -/
theorem passes_iff {expr : String} :
    Passes managed heuristics x expr ↔ expr = x.expression managed heuristics := by
  constructor
  · intro h
    unfold expression
    cases h with
    | @service name policy type found =>
        have hd : x.dependency? managed = some ⟨name, policy, false⟩ :=
          dependency?_eq_some_iff.mpr ⟨by simp only [wanted?, type], found⟩
        simp only [hd, toString_lookupText, Bool.false_eq_true, if_false]
    | @nullable name policy type default found =>
        have some_ := Option.isSome_iff_ne_none.mpr default
        have hd : x.dependency? managed = some ⟨name, policy, true⟩ :=
          dependency?_eq_some_iff.mpr ⟨by simp only [wanted?, type, some_, if_true], found⟩
        simp only [hd, toString_lookupText, if_true]
    | declared value default => simp only [value, valueText, default, Option.getD_some]
    | synthesized value default => simp only [value, valueText, default, Option.getD_none]
  · rintro rfl
    exact passes_expression x managed heuristics

/-- A parameter is passed by its expression, or left out. -/
theorem text?_source (x : Parameter) (style : Style) (managed : ManagedTypes) (heuristics : Bool) :
    (source style managed heuristics x).text?.map Marked.toString =
      if style = .literal ∧ x.IsLeftOut managed then none
      else some (x.expression managed heuristics) := by
  unfold source expression IsLeftOut
  split
  · next d value => simp [Source.text?, value]
  · next expr value default => simp [Source.text?, value, default, valueText]
  · next value default =>
    simp only [value, default, true_and, and_true]
    split <;> simp [Source.text?, valueText, default]

end Parameter

namespace Accessor

/-- The lines of a call: none but the name of a function without parameters, else the arguments
between a first and a last one. A literal has a line for each field that is not left out, and ends
with the defaults if there is one that is. -/
inductive Calls (className : String) (managed : ManagedTypes) (heuristics : Bool)
    (k : Constructor) : List String → Prop
  | bare {name : String} (style : k.style = .function name) (none_ : k.params = []) :
      Calls className managed heuristics k [className ++ "::" ++ name ++ "()"]
  | function {name : String} {lines : List String} (style : k.style = .function name)
      (some_ : k.params ≠ [])
      (arguments : List.Forall₂ (fun x line =>
        ∃ expr, Passes managed heuristics x expr ∧ line = "    " ++ expr ++ ",") k.params lines) :
      Calls className managed heuristics k
        ((className ++ "::" ++ name ++ "(") :: lines ++ [")"])
  | literal {lines : List String} (style : k.style = .literal)
      (fields : List.Forall₂ (fun x line =>
        ∃ expr, Passes managed heuristics x expr ∧ line = "    " ++ x.name ++ ": " ++ expr ++ ",")
        (k.params.filter fun x => ¬x.IsLeftOut managed) lines) :
      Calls className managed heuristics k
        ((className ++ " \x7b") :: (lines ++ if ∃ x ∈ k.params, x.IsLeftOut managed then
          ["    ..Default::default()"] else []) ++ ["\x7d"])

variable {managed : ManagedTypes} {heuristics : Bool}

/-- A call is spelled in one way. -/
theorem Calls.unique {className : String} {k : Constructor} {lines lines' : List String}
    (h : Calls className managed heuristics k lines)
    (h' : Calls className managed heuristics k lines') : lines = lines' := by
  have one {f : Parameter → String → String} : Relator.RightUnique fun (x : Parameter) line =>
      ∃ expr, Passes managed heuristics x expr ∧ line = f x expr := by
    rintro x _ _ ⟨expr, passes, rfl⟩ ⟨expr', passes', rfl⟩
    rw [Parameter.passes_iff.mp passes, Parameter.passes_iff.mp passes']
  cases h with
  | bare style none_ =>
      cases h' with
      | bare style' => cases style.symm.trans style'; rfl
      | function _ some_ => exact absurd none_ some_
      | literal style' => cases style.symm.trans style'
  | function style some_ arguments =>
      cases h' with
      | bare _ none_ => exact absurd none_ some_
      | function style' _ arguments' =>
          cases style.symm.trans style'
          rw [List.right_unique_forall₂' one arguments arguments']
      | literal style' => cases style.symm.trans style'
  | literal style fields =>
      cases h' with
      | bare style' => cases style.symm.trans style'
      | function style' => cases style.symm.trans style'
      | literal _ fields' => rw [List.right_unique_forall₂' one fields fields']

theorem forall₂_map {α β : Type} {R : α → β → Prop} {f : α → β} (l : List α) (h : ∀ a, R a (f a)) :
    List.Forall₂ R l (l.map f) := by
  rw [List.forall₂_map_right_iff, List.forall₂_same]
  exact fun a _ => h a

/-- The arguments of a function, none of which is left out. -/
theorem map_toString_passed (managed : ManagedTypes) (heuristics : Bool) (name : String)
    (params : List Parameter) :
    ((params.map (argument (.function name) managed heuristics)).filterMap
      fun a => a.source.text?).map Marked.toString =
    params.map fun x => x.expression managed heuristics := by
  have passed (x : Parameter) :
      (argument (.function name) managed heuristics x).source.text?.map Marked.toString =
        some (x.expression managed heuristics) :=
    (x.text?_source _ _ _).trans (if_neg fun h => nomatch h.1)
  rw [List.map_filterMap, List.filterMap_map]
  simp only [Function.comp_def, passed, List.filterMap_eq_map']

theorem toString_literalField (x : Parameter) :
    (Subject.literalField (argument .literal managed heuristics x)).toString =
      if x.IsLeftOut managed then ""
      else "    " ++ x.name ++ ": " ++ x.expression managed heuristics ++ "," ++ "\n" := by
  have passed := x.text?_source .literal managed heuristics
  have none_ : Marked.toString [] = "" := rfl
  unfold Subject.literalField argument
  split <;> split at passed <;>
    simp_all [Text.Marked.toString_append, String.append_assoc]

/-- The fields of a literal, apart from those that are left out. -/
theorem toString_literalFields (managed : ManagedTypes) (heuristics : Bool)
    (params : List Parameter) :
    Marked.toString ((params.map (argument .literal managed heuristics)).flatMap
        Subject.literalField) =
      String.join (((params.filter fun x => ¬x.IsLeftOut managed).map fun x =>
        "    " ++ x.name ++ ": " ++ x.expression managed heuristics ++ ",").map (· ++ "\n")) := by
  rw [List.flatMap_map, Text.Marked.toString_flatMap]
  simp only [toString_literalField]
  induction params with
  | nil => rfl
  | cons x params ih =>
      rw [List.map_cons, String.join_cons, ih]
      by_cases left : x.IsLeftOut managed <;> simp [left]

theorem exists_isLeftOut_iff (managed : ManagedTypes) (heuristics : Bool)
    (params : List Parameter) :
    ((params.map (argument .literal managed heuristics)).any fun a => a.source.text?.isNone) ↔
      ∃ x ∈ params, x.IsLeftOut managed := by
  have omitted (x : Parameter) : (source .literal managed heuristics x).text?.isNone ↔
      x.IsLeftOut managed := by
    rw [← Option.isNone_map, x.text?_source]
    by_cases left : x.IsLeftOut managed <;> simp [left]
  simp only [List.any_map, List.any_eq_true, Function.comp_apply, argument, omitted]

namespace Subject

variable {s : Subject} {name : String}

theorem toString_functionCall_nil (none_ : (s.arguments.filterMap fun a => a.source.text?) = []) :
    (s.functionCall name).toString = s.className ++ "::" ++ name ++ "()" := by
  simp only [functionCall, none_, Text.Marked.toString_append, Text.Marked.toString_fixed,
    Text.Marked.toString_given]

theorem toString_functionCall_of_ne_nil {exprs : List String}
    (passed : (s.arguments.filterMap fun a => a.source.text?).map Marked.toString = exprs)
    (some_ : exprs ≠ []) : (s.functionCall name).toString = "\n".intercalate
      ((s.className ++ "::" ++ name ++ "(") ::
        exprs.map (fun expr => "    " ++ expr ++ ",") ++ [")"]) := by
  have first : "(\n" = "(" ++ "\n" := by decide
  have comma : ",\n" = "," ++ "\n" := by decide
  subst passed
  rw [ne_eq, List.map_eq_nil_iff] at some_
  rw [Text.intercalate_block, functionCall]
  simp only [first, comma, Text.Marked.toString_append, Text.Marked.toString_fixed,
    Text.Marked.toString_given, Text.Marked.toString_flatMap, List.map_map, Function.comp_def,
    String.append_assoc]

theorem toString_literalCall {fields : List String} {left : Prop} [Decidable left]
    (h : Marked.toString (s.arguments.flatMap literalField) =
      String.join (fields.map (· ++ "\n")))
    (omitted : (s.arguments.any fun a => a.source.text?.isNone) ↔ left) :
    s.literalCall.toString = "\n".intercalate ((s.className ++ " \x7b") ::
      (fields ++ if left then ["    ..Default::default()"] else []) ++ ["\x7d"]) := by
  have first : " \x7b\n" = " \x7b" ++ "\n" := by decide
  have rest : Marked.toString (if left then fixed "    ..Default::default()\n" else []) =
      String.join ((if left then ["    ..Default::default()"] else []).map (· ++ "\n")) := by
    split
    · decide
    · rfl
  rw [Text.intercalate_block, literalCall, if_congr omitted rfl rfl]
  simp only [first, rest, h, Text.Marked.toString_append, Text.Marked.toString_fixed,
    Text.Marked.toString_given, List.map_append, String.join_append, String.append_assoc]

end Subject

end Accessor

namespace AnnotatedClass

open Accessor (Calls)

variable {c : AnnotatedClass} {k : Constructor} {managed : ManagedTypes} {config : Config}

theorem arguments_subject {style : Style} (h : k.style = style) :
    (c.subject k managed config).arguments =
      k.params.map (Accessor.argument style managed config.placeholderHeuristics) := by
  rw [subject, h]

theorem exists_calls_of_function {name : String} (style : k.style = .function name) :
    ∃ lines, Calls c.name managed config.placeholderHeuristics k lines ∧
      ((c.subject k managed config).functionCall name).toString = "\n".intercalate lines := by
  have passed := Accessor.map_toString_passed managed config.placeholderHeuristics name k.params
  rw [← arguments_subject (c := c) style] at passed
  by_cases none_ : k.params = []
  · rw [none_, List.map_nil, List.map_eq_nil_iff] at passed
    refine ⟨_, .bare style none_, ?_⟩
    rw [Accessor.Subject.toString_functionCall_nil passed, String.intercalate_singleton]
    rfl
  · refine ⟨_, .function style none_ (Accessor.forall₂_map _ fun x =>
      ⟨_, x.passes_expression managed config.placeholderHeuristics, rfl⟩), ?_⟩
    rw [Accessor.Subject.toString_functionCall_of_ne_nil passed (by simpa using none_),
      List.map_map]
    rfl

theorem exists_calls_of_literal (style : k.style = .literal) :
    ∃ lines, Calls c.name managed config.placeholderHeuristics k lines ∧
      (c.subject k managed config).literalCall.toString = "\n".intercalate lines := by
  have fields := Accessor.toString_literalFields managed config.placeholderHeuristics k.params
  have omitted := Accessor.exists_isLeftOut_iff managed config.placeholderHeuristics k.params
  rw [← arguments_subject (c := c) style] at fields omitted
  exact ⟨_, .literal style (Accessor.forall₂_map _ fun x =>
    ⟨_, x.passes_expression managed config.placeholderHeuristics, rfl⟩),
    Accessor.Subject.toString_literalCall fields omitted⟩

/-- The call of a subject is spelled by its lines. -/
theorem exists_calls (c : AnnotatedClass) (k : Constructor) (managed : ManagedTypes)
    (config : Config) : ∃ lines, Calls c.name managed config.placeholderHeuristics k lines ∧
    (c.subject k managed config).call.toString = "\n".intercalate lines := by
  unfold Accessor.Subject.call
  split
  · next name style => exact exists_calls_of_function style
  · next style => exact exists_calls_of_literal style

end AnnotatedClass

/-- The name and the default of a parameter, and the name of the type that it may ask for, have no
line feed. -/
structure Parameter.IsFlat (x : Parameter) : Prop where
  name : Text.IsFlat x.name
  type : ∀ name ∈ x.mentioned?, Text.IsFlat name
  default : ∀ expr ∈ x.default, Text.IsFlat expr

/-- Nothing that the call of a class takes over has a line feed. -/
structure AnnotatedClass.IsFlat (c : AnnotatedClass) (k : Constructor) : Prop where
  name : Text.IsFlat c.name
  function : ∀ name, k.style = .function name → Text.IsFlat name
  params : ∀ x ∈ k.params, x.IsFlat

namespace Accessor

variable {managed : ManagedTypes} {heuristics : Bool} {x : Parameter} {expr : String}

theorem isFlat_lookupCall {name : String} (policy : Policy) (flat : Text.IsFlat name) :
    Text.IsFlat (lookupCall name policy) := by
  have awaited : Text.IsFlat "registry.resolve_async::<" ∧ Text.IsFlat ">().await?" := by decide
  have plain : Text.IsFlat "registry.resolve::<" ∧ Text.IsFlat ">()?" := by decide
  unfold lookupCall
  split
  · simp [flat, awaited]
  · simp [flat, plain]

theorem isFlat_synthesized (x : Parameter) (heuristics : Bool) :
    Text.IsFlat (x.synthesized heuristics) := by
  have all : ∀ text ∈ literals, Text.IsFlat text := by decide
  exact all _ (synthesized_mem_literals x heuristics)

theorem Passes.isFlat (flat : x.IsFlat) (h : Passes managed heuristics x expr) :
    Text.IsFlat expr := by
  cases h with
  | @service name policy type found =>
      have mentioned : x.mentioned? = some name := by simp only [Parameter.mentioned?, type]
      exact isFlat_lookupCall policy (flat.type name mentioned)
  | @nullable name policy type default found =>
      have mentioned : x.mentioned? = some name := by simp only [Parameter.mentioned?, type]
      have wrapped : Text.IsFlat "Some(" ∧ Text.IsFlat ")" := by decide
      simp [wrapped, isFlat_lookupCall policy (flat.type name mentioned)]
  | declared value default => exact flat.default expr default
  | synthesized value default => exact isFlat_synthesized x heuristics

theorem forall_mem_of_forall₂ {α β : Type} {R : α → β → Prop} {p : β → Prop} {l : List α}
    {l' : List β} (each : ∀ a ∈ l, ∀ b, R a b → p b) (related : List.Forall₂ R l l') :
    ∀ b ∈ l', p b := by
  induction related with
  | nil => simp
  | cons first _ ih =>
      obtain ⟨here, each⟩ := List.forall_mem_cons.mp each
      exact List.forall_mem_cons.mpr ⟨here _ first, ih each⟩

def lineEnds : List String := ["()", "(", ")", ",", " \x7b", "    ..Default::default()", "\x7d"]

theorem isLine_of_mem_lineEnds : ∀ t ∈ lineEnds, IsLine t ∧ t ≠ "" := by
  decide +kernel

theorem isLine_append_lineEnd {s t : String} (flat : Text.IsFlat s) (h : t ∈ lineEnds) :
    IsLine (s ++ t) :=
  .append flat (isLine_of_mem_lineEnds t h).1 (isLine_of_mem_lineEnds t h).2

theorem Calls.isLine {c : AnnotatedClass} {k : Constructor} {lines : List String}
    (flat : c.IsFlat k) (h : Calls c.name managed heuristics k lines) :
    ∀ line ∈ lines, IsLine line := by
  have blank : Text.IsFlat "    " ∧ Text.IsFlat "::" ∧ Text.IsFlat ": " := by decide
  cases h with
  | bare style none_ =>
      have head := flat.function _ style
      rw [List.forall_mem_singleton]
      exact isLine_append_lineEnd (by simp [flat.name, head, blank]) (by decide)
  | @function name lines style some_ arguments =>
      have head := flat.function _ style
      have inner : ∀ line ∈ lines, IsLine line := by
        refine forall_mem_of_forall₂ (fun x hx => ?_) arguments
        rintro _ ⟨expr, passes, rfl⟩
        have expr := passes.isFlat (flat.params x hx)
        exact isLine_append_lineEnd (by simp [expr, blank]) (by decide)
      rw [List.forall_mem_append, List.forall_mem_cons, List.forall_mem_singleton]
      exact ⟨⟨isLine_append_lineEnd (by simp [flat.name, head, blank]) (by decide), inner⟩,
        (isLine_of_mem_lineEnds _ (by decide)).1⟩
  | @literal lines style fields =>
      have inner : ∀ line ∈ lines, IsLine line := by
        refine forall_mem_of_forall₂ (fun x hx => ?_) fields
        rintro _ ⟨expr, passes, rfl⟩
        have param := flat.params x (List.mem_of_mem_filter hx)
        have expr := passes.isFlat param
        exact isLine_append_lineEnd (by simp [expr, param.name, blank]) (by decide)
      have rest : ∀ line ∈ (if ∃ x ∈ k.params, x.IsLeftOut managed then
          ["    ..Default::default()"] else []), IsLine line := by
        split
        · exact List.forall_mem_singleton.mpr (isLine_of_mem_lineEnds _ (by decide)).1
        · simp
      rw [List.forall_mem_append, List.forall_mem_cons, List.forall_mem_append,
        List.forall_mem_singleton]
      exact ⟨⟨isLine_append_lineEnd flat.name (by decide), inner, rest⟩,
        (isLine_of_mem_lineEnds _ (by decide)).1⟩

end Accessor

namespace Accessor.Subject

/-- The text up to the name under which the producer sees the registry. -/
def before (s : Subject) : Marked :=
  s.heading ++
    if s.policy.isAsync then
      fixed "pub async fn " ++ given s.function ++ s.signature (given s.className)
        ++ fixed "    registry\n        .get_or_register_async(" ++ s.policyPath ++ fixed ", |"
    else
      fixed "pub fn " ++ given s.function ++ s.signature (given s.className)
        ++ fixed "    registry.get_or_register(" ++ s.policyPath ++ fixed ", |"

/-- The text from that name to the call. -/
def between (s : Subject) : Marked :=
  (if s.policy.isAsync then
      fixed ": " ++ s.inCrate "Registry" ++ fixed "| async move \x7b\n"
    else fixed ": &" ++ s.inCrate "Registry" ++ fixed "| \x7b\n")
    ++ margin s.policy.producerLevels ++ reflowed s.policy.producerLevels s.opening

def after (s : Subject) : Marked :=
  reflowed s.policy.producerLevels (s.awaiting ++ s.closing ++ fixed ")") ++ fixed "\n" ++
    if s.policy.isAsync then
      fixed "        \x7d)\n        .await\n\x7d\n\n" ++ s.asyncImplementation
    else fixed "    \x7d)\n\x7d\n\n" ++ s.syncImplementation

theorem reflowed_body (s : Subject) (levels : Nat) : reflowed levels s.body =
    reflowed levels s.opening ++ reflowed levels s.call ++
      reflowed levels (s.awaiting ++ s.closing ++ fixed ")") := by
  have opens : ∀ g ∈ s.opening.getLast?, g.char ≠ '\r' := by
    unfold opening
    split
    · simp
    · split
      · rw [List.getLast?_append_of_ne_nil _ (by decide)]
        decide
      · decide
  have closes : ∀ g ∈ (s.awaiting ++ s.closing ++ fixed ")").head?, g.char ≠ '\n' := by
    unfold awaiting closing
    cases s.constructor.isAsync <;> cases s.constructor.isFallible <;> simp [fixed]
  have parts : s.body = s.opening ++ s.call ++ (s.awaiting ++ s.closing ++ fixed ")") := by
    simp only [body_eq, List.append_assoc]
  rw [parts, reflowed, Text.relined_append fun _ _ g hg _ => closes g hg,
    Text.relined_append fun g hg _ _ hr => absurd hr (opens g hg)]
  rfl

theorem text_eq (s : Subject) : s.text =
    s.before ++ s.binder ++ s.between ++ reflowed s.policy.producerLevels s.call ++ s.after := by
  unfold text before between after asyncFunction syncFunction Policy.producerLevels
  split <;> simp only [indent_body, reflowed_body, List.append_assoc]

end Accessor.Subject

namespace AnnotatedClass

open Accessor (Calls)

variable {c : AnnotatedClass} {k : Constructor} {managed : ManagedTypes} {config : Config}

/-- What the accessor is made from when the parameters of the constructor are left away. -/
def frame (c : AnnotatedClass) (k : Constructor) (config : Config) : Accessor.Subject :=
  c.subject { k with params := [] } .empty config

theorem looked_subject : (c.subject k managed config).looked =
    k.params.filterMap fun x => (x.dependency? managed).map Dependency.typeName := by
  simp only [Accessor.Subject.looked_eq, Accessor.Subject.lookups, subject, List.filterMap_map,
    List.map_filterMap, Function.comp_def, Accessor.argument, Accessor.dependency?_source]

/-- The arguments stand in the code line by line, and nothing else in it follows from the parameters
but the name under which the producer sees the registry. The dependencies are those of the
parameters, and the registry is seen exactly if there are some. -/
theorem arguments_in_code {a : GeneratedAccessor} (made : c.accessor managed config = .ok a)
    (hk : c.constructor = some k) (flat : c.IsFlat k) :
    a.dependencies =
        k.params.filterMap (fun x => (x.dependency? managed).map Dependency.typeName) ∧
      ∃ lines, Calls c.name managed config.placeholderHeuristics k lines ∧
        (∀ line ∈ lines, Text.IsFlat line) ∧
        a.code = (c.frame k config).before.toString
          ++ (if a.dependencies = [] then "_" else "registry")
          ++ (c.frame k config).between.toString
          ++ (lineBreak c.policy.producerLevels).intercalate lines
          ++ (c.frame k config).after.toString := by
  obtain ⟨k', callable, rfl⟩ := accessor_eq_ok_iff.mp made
  cases hk.symm.trans (constructor_of_callable callable)
  obtain ⟨lines, calls, spelled⟩ := exists_calls c k managed config
  refine ⟨looked_subject, lines, calls, fun line hl => (calls.isLine flat line hl).flat, ?_⟩
  have call : (reflowed c.policy.producerLevels (c.subject k managed config).call).toString =
      (lineBreak c.policy.producerLevels).intercalate lines := by
    rw [Text.Marked.toString_reflowed, spelled,
      Text.reindented_intercalate _ (calls.isLine flat)]
  have binder : (c.subject k managed config).binder.toString =
      if (c.subject k managed config).looked = [] then "_" else "registry" := by
    rw [Accessor.Subject.binder, Text.Marked.toString_fixed]
    simp only [List.isEmpty_iff]
  rw [Accessor.Subject.text_eq]
  simp only [Text.Marked.toString_append, binder, ← call]
  rfl

def stock : Constructor :=
  ⟨.literal, false, false,
    [⟨"pool", .named "Pool", .named, true, none⟩,
      ⟨"cache", .optional (.named "Cache"), .named, false, some "None"⟩,
      ⟨"size", .integer, .named, true, some "8"⟩, ⟨"note", .text, .named, false, none⟩]⟩

def stocked : AnnotatedClass := ⟨"Store", ⟨"src/store.rs", 3, 1⟩, .silent, some stock⟩

def pools : ManagedTypes := (Table.insert .empty "Pool" .singleton).insert "Cache" .factory

theorem isFlat_stocked : stocked.IsFlat stock where
  name := by decide
  function _ style := nomatch style
  params x hx := by
    simp only [stock, List.mem_cons, List.not_mem_nil, or_false] at hx
    obtain rfl | rfl | rfl | rfl := hx <;>
      exact ⟨by decide, by simp only [Parameter.mentioned?]; decide, by decide⟩

theorem store_arguments_in_code : stocked.IsFlat stock ∧
    ∃ a, stocked.accessor pools .standard = .ok a ∧ a.dependencies = ["Pool", "Cache"] ∧
      a.code = (stocked.frame stock .standard).before.toString ++ "registry"
        ++ (stocked.frame stock .standard).between.toString
        ++ (lineBreak stocked.policy.producerLevels).intercalate
          ["Store \x7b", "    pool: registry.resolve::<Pool>()?,",
            "    cache: Some(registry.resolve::<Cache>()?),", "    size: 8,",
            "    ..Default::default()", "\x7d"]
        ++ (stocked.frame stock .standard).after.toString := by
  obtain ⟨-, lines, calls, -, code⟩ :=
    @arguments_in_code stocked stock pools .standard _ rfl rfl isFlat_stocked
  have spelled := calls.unique (.literal rfl (.cons ⟨_, .service rfl rfl, rfl⟩
    (.cons ⟨_, .nullable rfl (by decide) rfl, rfl⟩ (.cons ⟨_, .declared rfl rfl, rfl⟩ .nil))))
  rw [spelled] at code
  exact ⟨isFlat_stocked, _, rfl, by decide, code⟩

end AnnotatedClass

end Wiring
