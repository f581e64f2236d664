import Wiring.Proofs.Generation.Outcome
import Wiring.Proofs.Wired.Cycle
import Wiring.Registry.Session
import Wiring.Registry.Plan
import Mathlib.Data.List.Nodup

/-!
What the code of generated accessors does. An accessor registers its class with its policy, and its
producer looks up the dependencies one after another, each by the entry point that the policy of the
dependency calls for. The accessors of a pass without errors fit together.
-/
namespace Wiring

open Registry

namespace GeneratedAccessor

def lookup (key : Key) : Mode → Ask
  | .sync => .resolve key
  | .async => .resolveAsync key

def plan (keyOf : String → Key) (modeOf : String → Mode) (a : GeneratedAccessor) : Plan :=
  .mk none none (a.dependencies.map fun d => .mk (lookup (keyOf d) (modeOf d)) .stop)

def registered (keyOf : String → Key) (modeOf : String → Mode) (a : GeneratedAccessor) :
    Registry.Accessor :=
  ⟨a.policy, (a.plan keyOf modeOf).script (keyOf a.className)⟩

def producer (keyOf : String → Key) (modeOf : String → Mode) (a : GeneratedAccessor) (m : Mode) :
    Producer m :=
  ⟨.accessor (keyOf a.className), (a.registered keyOf modeOf).script m⟩

def demand (keyOf : String → Key) (a : GeneratedAccessor) (context : Context) : Demand :=
  match a.policy.mode with
  | .sync => ⟨.inl (.resolve (keyOf a.className)), context⟩
  | .async => ⟨.inr (.resolveAsync (keyOf a.className)), context⟩

end GeneratedAccessor

def BuildPass.modeOf (p : BuildPass) (name : String) : Mode :=
  ((p.managed.find? name).map Policy.mode).getD .sync

/-- A registry that has the accessors of a generation, and for keys of other classes any others. -/
def Generation.setting (g : Generation) (keyOf : String → Key) (modeOf : String → Mode)
    (observers : Nat) (others : Key → Registry.Accessor) : Setting where
  observers := observers
  accessor key :=
    match g.accessors.find? fun a => keyOf a.className = key with
    | some a => a.registered keyOf modeOf
    | none => others key

/-- Accessors that fit together, and a registry that has them. -/
structure Wired (setting : Setting) (keyOf : String → Key) (modeOf : String → Mode)
    (accessors : List GeneratedAccessor) : Prop where
  names : ∀ a ∈ accessors, ∀ b ∈ accessors,
    (keyOf a.className).name = (keyOf b.className).name → a = b
  few : accessors.length ≤ maxDepth
  closed : ∀ a ∈ accessors, ∀ d ∈ a.dependencies, ∃ b ∈ accessors, b.className = d
  modes : ∀ a ∈ accessors, modeOf a.className = a.policy.mode
  plain : ∀ a b, Needs accessors a b → a.policy.mode = .sync → b.policy.mode = .sync
  registered : ∀ a ∈ accessors,
    setting.accessor (keyOf a.className) = a.registered keyOf modeOf

theorem Policy.mode_eq_sync_iff {p : Policy} : p.mode = .sync ↔ p.isAsync = false := by
  cases p <;> simp [Policy.mode, Policy.isAsync]

section Generated

variable {p : BuildPass} {config : Config}

/-- The accessors of a pass without errors are those of its classes. -/
theorem BuildPass.accessor_iff (names : (p.classes.map AnnotatedClass.name).Nodup)
    (clean : (p.generate config).errors = []) :
    (∀ c ∈ p.classes, ∃ a ∈ (p.generate config).accessors,
      c.accessor p.managed config = .ok a) ∧
      (∀ a ∈ (p.generate config).accessors, ∃ c ∈ p.classes,
        c.accessor p.managed config = .ok a) ∧
        (p.generate config).accessors.length = p.classes.length := by
  have pairs := BuildPass.map_accessor_kept clean
  rw [BuildPass.kept_of_names names] at pairs
  refine ⟨fun c hc => ?_, fun a ha => ?_, ?_⟩
  · have there : c.accessor p.managed config ∈ (p.generate config).accessors.map Except.ok :=
      pairs ▸ List.mem_map_of_mem hc
    obtain ⟨a, ha, h⟩ := List.mem_map.1 there
    exact ⟨a, ha, h.symm⟩
  · have there : Except.ok a ∈ p.classes.map fun c => c.accessor p.managed config :=
      pairs ▸ List.mem_map_of_mem ha
    obtain ⟨c, hc, h⟩ := List.mem_map.1 there
    exact ⟨c, hc, h⟩
  · simpa using (congrArg List.length pairs).symm

theorem BuildPass.find?_managed (closed : p.external = .empty)
    (names : (p.classes.map AnnotatedClass.name).Nodup) {c : AnnotatedClass} (hc : c ∈ p.classes) :
    p.managed.find? c.name = some c.policy := by
  rw [p.managed_of_closed closed, ManagedTypes.find?_ofClasses]
  cases h : p.classes.find? fun d => d.name = c.name with
  | none =>
      have missed := List.find?_eq_none.1 h c hc
      simp at missed
  | some d =>
      have hd := List.mem_of_find?_eq_some h
      have hn : d.name = c.name := by simpa using List.find?_some h
      rw [List.inj_on_of_nodup_map names hd hc hn]
      rfl

/-- The accessors of a pass fit together. -/
theorem wired_of_pass (closed : p.external = .empty)
    (names : (p.classes.map AnnotatedClass.name).Nodup) (few : p.classes.length ≤ maxDepth)
    (clean : (p.generate config).errors = []) {keyOf : String → Key}
    (apart : ∀ c ∈ p.classes, ∀ d ∈ p.classes,
      (keyOf c.name).name = (keyOf d.name).name → c.name = d.name)
    (observers : Nat) (others : Key → Registry.Accessor) :
    Wired ((p.generate config).setting keyOf p.modeOf observers others) keyOf p.modeOf
      (p.generate config).accessors := by
  obtain ⟨ofClass, ofAccessor, length⟩ := BuildPass.accessor_iff names clean
  have mode : ∀ c ∈ p.classes, p.modeOf c.name = c.policy.mode := by
    intro c hc
    rw [BuildPass.modeOf, p.find?_managed closed names hc]
    rfl
  have same : ∀ a ∈ (p.generate config).accessors, ∀ b ∈ (p.generate config).accessors,
      (keyOf a.className).name = (keyOf b.className).name → a = b := by
    intro a ha b hb he
    obtain ⟨c, hc, h⟩ := ofAccessor a ha
    obtain ⟨d, hd, h'⟩ := ofAccessor b hb
    rw [(AnnotatedClass.accessor_spec h).1, (AnnotatedClass.accessor_spec h').1] at he
    cases List.inj_on_of_nodup_map names hc hd (apart c hc d hd he)
    exact Except.ok.inj (h.symm.trans h')
  refine ⟨same, length ▸ few, ?_, ?_, ?_, ?_⟩
  · intro a ha d hd
    obtain ⟨c, hc, h⟩ := ofAccessor a ha
    obtain ⟨policy, hp, -⟩ := (AnnotatedClass.accessor_spec h).2.2 d hd
    rw [p.managed_of_closed closed, ManagedTypes.find?_ofClasses] at hp
    obtain ⟨c', hc', -⟩ := Option.map_eq_some_iff.1 hp
    obtain ⟨b, hb, h'⟩ := ofClass c' (List.mem_of_find?_eq_some hc')
    refine ⟨b, hb, ?_⟩
    rw [(AnnotatedClass.accessor_spec h').1]
    simpa using List.find?_some hc'
  · intro a ha
    obtain ⟨c, hc, h⟩ := ofAccessor a ha
    rw [(AnnotatedClass.accessor_spec h).1, (AnnotatedClass.accessor_spec h).2.1, mode c hc]
  · intro a b given plain
    obtain ⟨ha, hb, hd⟩ := given
    obtain ⟨c, hc, h⟩ := ofAccessor a ha
    obtain ⟨d, hd', h'⟩ := ofAccessor b hb
    obtain ⟨-, hp, deps⟩ := AnnotatedClass.accessor_spec h
    obtain ⟨policy, hm, awaits⟩ := deps b.className hd
    rw [(AnnotatedClass.accessor_spec h').1, p.find?_managed closed names hd'] at hm
    cases hm
    rw [hp, Policy.mode_eq_sync_iff] at plain
    rw [(AnnotatedClass.accessor_spec h').2.1, Policy.mode_eq_sync_iff]
    exact awaits plain
  · intro a ha
    simp only [Generation.setting]
    cases found : (p.generate config).accessors.find?
        fun b => keyOf b.className = keyOf a.className with
    | none =>
        have missed := List.find?_eq_none.1 found a ha
        simp at missed
    | some b =>
        have hk : keyOf b.className = keyOf a.className := by simpa using List.find?_some found
        cases same b (List.mem_of_find?_eq_some found) a ha (congrArg Key.name hk)
        rfl

end Generated

end Wiring
