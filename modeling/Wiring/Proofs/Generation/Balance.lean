import Wiring.Proofs.Accessor.Balance

/-!
Brackets in generated code. Wherever the texts are balanced that are taken over from a class and
from the settings, so is the code of its accessor, and so is an artifact of such accessors.
-/
namespace Wiring

open Text (Bracket Balanced balanced_of_all)

/-- The name and the default of a parameter, and the name of the type that it may ask for, are
balanced. -/
structure Parameter.IsBalanced (kinds : List Bracket) (x : Parameter) : Prop where
  name : Balanced kinds x.name.toList
  type : ∀ name ∈ x.mentioned?, Balanced kinds name.toList
  default : ∀ expr ∈ x.default, Balanced kinds expr.toList

structure AnnotatedClass.IsBalanced (kinds : List Bracket) (c : AnnotatedClass) : Prop where
  name : Balanced kinds c.name.toList
  function : ∀ k ∈ c.constructor, ∀ name, k.style = .function name → Balanced kinds name.toList
  params : ∀ k ∈ c.constructor, ∀ x ∈ k.params, x.IsBalanced kinds

variable {kinds : List Bracket}

theorem Accessor.balanced_text? {x : Parameter} (h : x.IsBalanced kinds) {style : Style}
    {managed : ManagedTypes} {heuristics : Bool} {t : Text.Marked}
    (passed : (source style managed heuristics x).text? = some t) :
    Balanced kinds (Text.Marked.chars t) := by
  unfold source at passed
  split at passed
  · next d hd =>
    cases passed
    have mentioned := Parameter.mentioned?_of_wanted? (Parameter.dependency?_eq_some_iff.mp hd).1
    exact (turns_lookupText (h.type _ mentioned)).balanced
  · next expr _ default =>
    cases passed
    exact (Text.Marked.turns_given (h.default expr default)).balanced
  · split at passed
    · cases passed
    · cases passed
      rw [Text.Marked.chars_fixed]
      exact balanced_synthesized x heuristics

/-- Code that ends with a line, and no front of which closes more brackets than it opens. -/
structure WellBracketed (kinds : List Bracket) (code : String) : Prop where
  balanced : Balanced kinds code.toList
  fronts : ∀ b ∈ kinds, ∀ front, front <+: code.toList →
    front.count b.closer ≤ front.count b.opener
  ends : ∃ text, code = text ++ "\n"

theorem WellBracketed.of_balanced {code : String} (balanced : Balanced kinds code.toList)
    (ends : ∃ text, code = text ++ "\n") : WellBracketed kinds code :=
  ⟨balanced, fun _ kind _ isFront => balanced.count_closer_le kind isFront, ends⟩

namespace AnnotatedClass

variable {c : AnnotatedClass} {k : Constructor} {managed : ManagedTypes} {config : Config}

theorem isBalanced_subject (h : c.IsBalanced kinds) (hk : c.constructor = some k)
    (crate : Balanced kinds config.runtimeCrate.toList) :
    (c.subject k managed config).IsBalanced kinds where
  className := h.name
  runtimeCrate := crate
  function := h.function k hk
  names := List.forall_mem_map.mpr fun x hx => (h.params k hk x hx).name
  passed := List.forall_mem_map.mpr fun x hx _ => Accessor.balanced_text? (h.params k hk x hx)

theorem wellBracketed_code (h : c.IsBalanced kinds)
    (crate : Balanced kinds config.runtimeCrate.toList) {a : GeneratedAccessor}
    (made : c.accessor managed config = .ok a) : WellBracketed kinds a.code := by
  refine .of_balanced ?_ (BuildPass.code_ends made)
  obtain ⟨k, callable, rfl⟩ := accessor_eq_ok_iff.mp made
  rw [Text.Marked.toString, String.toList_ofList]
  exact (isBalanced_subject h (constructor_of_callable callable) crate).turns_text.balanced

end AnnotatedClass

namespace BuildPass

theorem ends_append {s t : String} (h : ∃ text, t = text ++ "\n") :
    ∃ text, s ++ t = text ++ "\n" := by
  obtain ⟨text, rfl⟩ := h
  exact ⟨s ++ text, (String.append_assoc ..).symm⟩

theorem contents_ends (source : String) {codes : List String}
    (ends : ∀ code ∈ codes, ∃ text, code = text ++ "\n") :
    ∃ text, contents source codes = text ++ "\n" := by
  obtain rfl | ⟨front, last, rfl⟩ := List.eq_nil_or_concat' codes
  · have alone : contents source [] = header source := String.append_empty
    exact alone ▸ ends_append ⟨"`. Do not edit.", by decide⟩
  · unfold contents
    rw [List.map_append, String.join_append, List.map_singleton, String.join_cons, String.join_nil,
      String.append_empty]
    exact ends_append (ends_append (ends_append (ends last (by simp))))

theorem balanced_contents {source : String} {codes : List String}
    (named : Balanced kinds source.toList) (each : ∀ code ∈ codes, Balanced kinds code.toList) :
    Balanced kinds (contents source codes).toList := by
  have before : Balanced kinds "// @generated by ferrous-autowire from `".toList :=
    balanced_of_all (by decide +kernel)
  have line : Balanced kinds "`. Do not edit.\n".toList := balanced_of_all (by decide)
  have feed : Balanced kinds "\n".toList := balanced_of_all (by decide)
  have joined : Balanced kinds (String.join (codes.map fun code => "\n" ++ code)).toList := by
    induction codes with
    | nil => exact .nil
    | cons code codes ih =>
        obtain ⟨first, others⟩ := List.forall_mem_cons.mp each
        simp only [List.map_cons, String.join_cons, String.toList_append]
        exact (feed.append first).append (ih others)
  unfold contents header
  simp only [String.toList_append]
  exact ((before.append named).append line).append joined

end BuildPass

/-- Where the texts that an accessor takes over are balanced, its code is well bracketed, in all
kinds of brackets or in some of them; and so is every artifact whose source is balanced, too. -/
theorem generated_code_well_bracketed (kinds : List Bracket) {config : Config}
    (crate : Balanced kinds config.runtimeCrate.toList) :
    (∀ (c : AnnotatedClass) managed a, c.IsBalanced kinds → c.accessor managed config = .ok a →
      WellBracketed kinds a.code) ∧
    ∀ (p : BuildPass), ∀ x ∈ (p.generate config).artifacts, Balanced kinds x.source.toList →
      (∀ c a, (c, .ok a) ∈ p.outcomes config → c.location.file = x.source → c.IsBalanced kinds) →
        WellBracketed kinds x.contents := by
  have code : ∀ (c : AnnotatedClass) managed a, c.IsBalanced kinds →
      c.accessor managed config = .ok a → WellBracketed kinds a.code :=
    fun c managed a h => c.wellBracketed_code h crate
  refine ⟨code, fun p x hx named classes => ?_⟩
  obtain ⟨codes, -, hc, same⟩ := BuildPass.mem_artifacts_iff.mp hx
  have each : ∀ code ∈ codes, WellBracketed kinds code := by
    intro text ht
    rw [hc] at ht
    obtain ⟨y, hy, rfl⟩ := List.mem_map.mp ht
    obtain ⟨filed, there⟩ := List.mem_filter.mp hy
    obtain ⟨c, made, file⟩ := BuildPass.exists_outcome_of_mem_filed filed
    have inFile : y.1 = x.source := of_decide_eq_true there
    exact code c _ _ (classes c _ made (file.trans inFile)) (BuildPass.accessor_of_mem made)
  rw [same]
  exact .of_balanced (BuildPass.balanced_contents named fun code h => (each code h).balanced)
    (BuildPass.contents_ends _ fun code h => (each code h).ends)

def shelf : AnnotatedClass :=
  ⟨"Shelf<[u8; 4]>", ⟨"src/(store)/shelf.rs", 3, 1⟩, ⟨some .singletonAsync, .nowhere⟩,
    some ⟨.function "open::<{ 8 }>", true, true,
      [⟨"pool", .optional (.named "Pool<()>"), .positional, true, some "None"⟩,
        ⟨"rows", .sequence .integer, .positional, true, some "vec![(1, 2), (3, 4)]"⟩]⟩⟩

def shelfPass : BuildPass where
  classes := [shelf]
  external := .insert .empty "Pool<()>" .singletonAsync

theorem isBalanced_shelf : shelf.IsBalanced Bracket.all where
  name := by decide
  function k hk name style := by
    cases hk
    cases style
    decide
  params k hk x hx := by
    cases hk
    simp only [List.mem_cons, List.not_mem_nil, or_false] at hx
    obtain rfl | rfl := hx <;>
      exact ⟨by decide, by simp only [Parameter.mentioned?]; decide, by decide⟩

theorem shelf_code_well_bracketed :
    Balanced Bracket.all Config.standard.runtimeCrate.toList ∧ shelf.IsBalanced Bracket.all ∧
      (∃ a, shelf.accessor shelfPass.managed .standard = .ok a ∧ WellBracketed Bracket.all a.code) ∧
      ∃ x ∈ (shelfPass.generate .standard).artifacts, Balanced Bracket.all x.source.toList ∧
        WellBracketed Bracket.all x.contents := by
  have crate : Balanced Bracket.all Config.standard.runtimeCrate.toList := by decide
  obtain ⟨code, contents⟩ := @generated_code_well_bracketed Bracket.all .standard crate
  have classes (c : AnnotatedClass) (a : GeneratedAccessor)
      (made : (c, .ok a) ∈ shelfPass.outcomes .standard) : c.IsBalanced Bracket.all := by
    have kept := List.mem_map_of_mem (f := Prod.fst) made
    rw [BuildPass.outcomes, BuildPass.map_fst_outcomesFrom] at kept
    have alone : shelfPass.kept = [shelf] := by decide +kernel
    rw [alone] at kept
    obtain rfl : c = shelf := List.mem_singleton.mp kept
    exact isBalanced_shelf
  have there : "src/(store)/shelf.rs" ∈
      (shelfPass.generate .standard).artifacts.map Artifact.source := by decide +kernel
  obtain ⟨x, hx, source⟩ := List.mem_map.mp there
  have named : Balanced Bracket.all x.source.toList := source ▸ by decide
  exact ⟨crate, isBalanced_shelf, ⟨_, rfl, code shelf shelfPass.managed _ isBalanced_shelf rfl⟩,
    x, hx, named, contents shelfPass x hx named fun c a made _ => classes c a made⟩

end Wiring
