import Wiring.Proofs.Generation.Outcome

/-!
Where the lookups of generated code go. A lookup is plain or awaited as the first class of its name
is, whether or not that class gets an accessor. So every lookup of a pass finds an accessor exactly
if, of each name that is looked up, some class gets an accessor that is plain or awaited like the
first.
-/
namespace Wiring

namespace Accessor

def Source.dependency? : Source → Option Dependency
  | .lookup d => some d
  | .declared _ | .synthesized _ | .omitted => none

def Subject.lookups (s : Subject) : List Dependency :=
  s.arguments.filterMap fun a => a.source.dependency?

theorem Subject.looked_eq (s : Subject) : s.looked = s.lookups.map Dependency.typeName := by
  rw [looked, lookups, List.map_filterMap]
  congr 1
  funext a
  cases a.source <;> rfl

theorem dependency?_source (style : Style) (managed : ManagedTypes) (heuristics : Bool)
    (x : Parameter) : (source style managed heuristics x).dependency? = x.dependency? managed := by
  unfold source
  split
  · next d hd => exact hd.symm
  · next hd _ => exact hd.symm
  · next hd _ => split <;> exact hd.symm

end Accessor

theorem Parameter.dependency?_eq_some_iff {x : Parameter} {managed : ManagedTypes}
    {d : Dependency} : x.dependency? managed = some d ↔
      x.wanted? = some (d.typeName, d.isNullable) ∧ managed.find? d.typeName = some d.policy := by
  simp only [Parameter.dependency?, Option.bind_eq_bind, Option.bind_eq_some_iff]
  constructor
  · intro h
    obtain ⟨⟨name, isNullable⟩, hw, policy, hp, h⟩ := h
    cases h
    exact ⟨hw, hp⟩
  · intro h
    exact ⟨_, h.1, _, h.2, rfl⟩

namespace AnnotatedClass

variable {c : AnnotatedClass} {managed : ManagedTypes} {config : Config} {k : Constructor}

theorem mem_lookups_subject {d : Dependency} : d ∈ (c.subject k managed config).lookups ↔
    ∃ x ∈ k.params, x.dependency? managed = some d := by
  simp only [Accessor.Subject.lookups, subject, List.mem_filterMap, List.mem_map]
  constructor
  · intro h
    obtain ⟨_, ⟨x, hx, rfl⟩, hd⟩ := h
    exact ⟨x, hx, by rwa [Accessor.argument, Accessor.dependency?_source] at hd⟩
  · intro h
    obtain ⟨x, hx, hd⟩ := h
    exact ⟨_, ⟨x, hx, rfl⟩, by rwa [Accessor.argument, Accessor.dependency?_source]⟩

theorem accessor_eq_ok_iff {a : GeneratedAccessor} : c.accessor managed config = .ok a ↔
    ∃ k, c.callable managed = .ok k ∧
      a = ⟨c.name, Accessor.functionName c.name, c.policy, (c.subject k managed config).looked,
        (c.subject k managed config).text.toString⟩ := by
  unfold accessor
  cases c.callable managed with
  | ok k => simp [Accessor.Subject.function, subject, eq_comm]
  | error fault => simp

end AnnotatedClass

namespace BuildPass

variable {managed : ManagedTypes} {config : Config}

def place (c : AnnotatedClass) : String × String := (c.location.file, Accessor.functionName c.name)

theorem outcome_eq_ok_iff {taken : Taken} {c : AnnotatedClass} {a : GeneratedAccessor} :
    outcome managed config taken c = .ok a ↔
      c.accessor managed config = .ok a ∧ taken.lookup (place c) = none := by
  unfold outcome
  cases h : c.accessor managed config with
  | error e => simp [bind, Except.bind]
  | ok b =>
      obtain ⟨k, -, rfl⟩ := AnnotatedClass.accessor_eq_ok_iff.1 h
      cases hl : taken.lookup (place c) with
      | none =>
          simp only [place] at hl
          simp [bind, Except.bind, hl]
      | some existing =>
          simp only [place] at hl
          simp [bind, Except.bind, hl]

/-- A class that can be called leaves its place taken, by itself or by a class before it. -/
theorem lookup_after (taken : Taken) (c : AnnotatedClass) (at_ : String × String) :
    (taken.after c (outcome managed config taken c)).lookup at_ = none ↔
      taken.lookup at_ = none ∧ ∀ k, c.callable managed = .ok k → place c ≠ at_ := by
  cases h : outcome managed config taken c with
  | error e =>
      have unchanged : taken.after c (.error e) = taken := rfl
      rw [unchanged]
      refine ⟨fun free => ⟨free, fun k hk he => ?_⟩, fun free => free.1⟩
      subst he
      cases h.symm.trans (outcome_eq_ok_iff.2
        ⟨AnnotatedClass.accessor_eq_ok_iff.2 ⟨k, hk, rfl⟩, free⟩)
  | ok a =>
      obtain ⟨ha, -⟩ := outcome_eq_ok_iff.1 h
      obtain ⟨k, hk, rfl⟩ := AnnotatedClass.accessor_eq_ok_iff.1 ha
      have now : taken.after c (.ok ⟨c.name, Accessor.functionName c.name, c.policy,
          (c.subject k managed config).looked, (c.subject k managed config).text.toString⟩) =
          (place c, c.name) :: taken := rfl
      rw [now, List.lookup_cons]
      by_cases he : at_ = place c
      · simp [he, hk]
      · rw [beq_eq_false_iff_ne.2 he]
        exact ⟨fun free => ⟨free, fun _ _ => Ne.symm he⟩, fun free => free.1⟩

/-- A class of a list gets its accessor if it can be called and its place is free: no class
before it that can be called has the same. -/
theorem mem_outcomesFrom_iff {taken : Taken} {classes : List AnnotatedClass} {c : AnnotatedClass}
    {a : GeneratedAccessor} : (c, .ok a) ∈ outcomesFrom managed config taken classes ↔
      c.accessor managed config = .ok a ∧ taken.lookup (place c) = none ∧
        ∃ before after, classes = before ++ c :: after ∧
          ∀ x ∈ before, ∀ k, x.callable managed = .ok k → place x ≠ place c := by
  induction classes generalizing taken with
  | nil => simp [outcomesFrom]
  | cons y rest ih =>
      have head : (c, Except.ok a) = (y, outcome managed config taken y) ↔
          c = y ∧ c.accessor managed config = .ok a ∧ taken.lookup (place c) = none := by
        rw [Prod.mk.injEq, eq_comm (a := Except.ok a)]
        refine and_congr_right fun he => ?_
        subst he
        exact outcome_eq_ok_iff
      rw [outcomesFrom, List.mem_cons, head, ih, lookup_after]
      constructor
      · rintro (⟨rfl, ha, free⟩ | ⟨ha, ⟨free, hy⟩, before, after, rfl, others⟩)
        · exact ⟨ha, free, [], rest, rfl, by simp⟩
        · exact ⟨ha, free, y :: before, after, rfl, List.forall_mem_cons.2 ⟨hy, others⟩⟩
      · rintro ⟨ha, free, before, after, split, others⟩
        cases before with
        | nil =>
            obtain ⟨rfl, rfl⟩ := List.cons.inj split
            exact .inl ⟨rfl, ha, free⟩
        | cons x before =>
            obtain ⟨rfl, rfl⟩ := List.cons.inj split
            obtain ⟨hx, others⟩ := List.forall_mem_cons.1 others
            exact .inr ⟨ha, ⟨free, hx⟩, before, after, rfl, others⟩

variable {p : BuildPass} {c : AnnotatedClass} {k : Constructor} {d : Dependency}

/-- Class `c` gets an accessor that calls `k`: the first class of its file that can be called keeps
the name of a function. -/
def Yields (p : BuildPass) (c : AnnotatedClass) (k : Constructor) : Prop :=
  c.callable p.managed = .ok k ∧ ∃ before after, p.kept = before ++ c :: after ∧
    ∀ x ∈ before, ∀ k, x.callable p.managed = .ok k → place x ≠ place c

/-- `a` is an accessor of the pass, and `s` is what its text is made from. -/
def Writes (p : BuildPass) (config : Config) (s : Accessor.Subject) (a : GeneratedAccessor) :
    Prop :=
  ∃ c k, (c, .ok a) ∈ p.outcomes config ∧ c.callable p.managed = .ok k ∧
    s = c.subject k p.managed config

theorem mem_accessors_iff {a : GeneratedAccessor} :
    a ∈ (p.generate config).accessors ↔ ∃ c, (c, .ok a) ∈ p.outcomes config := by
  simp only [generate, List.mem_filterMap, Prod.exists]
  constructor
  · rintro ⟨c, r, hr, ha⟩
    cases r with
    | ok b => cases ha; exact ⟨c, hr⟩
    | error e => cases ha
  · rintro ⟨c, ha⟩
    exact ⟨c, _, ha, rfl⟩

theorem yields_iff (config : Config) :
    p.Yields c k ↔ c.callable p.managed = .ok k ∧ ∃ a, (c, .ok a) ∈ p.outcomes config := by
  refine and_congr_right fun hk => ?_
  simp only [outcomes, mem_outcomesFrom_iff, List.lookup_nil, true_and]
  constructor
  · intro first
    exact ⟨_, AnnotatedClass.accessor_eq_ok_iff.2 ⟨k, hk, rfl⟩, first⟩
  · rintro ⟨a, -, first⟩
    exact first

theorem accessor_of_mem {a : GeneratedAccessor} (h : (c, .ok a) ∈ p.outcomes config) :
    c.accessor p.managed config = .ok a := (mem_outcomesFrom_iff.1 h).1

end BuildPass

/-- Lookup `d` has an accessor to go to, one of its class that is plain or awaited as it is. -/
def Generation.Answers (g : Generation) (d : Dependency) : Prop :=
  ∃ b ∈ g.accessors, b.className = d.typeName ∧ b.policy.mode = d.policy.mode

namespace BuildPass

variable {p : BuildPass} {config : Config} {c : AnnotatedClass} {k : Constructor} {d : Dependency}

theorem answers_iff : (p.generate config).Answers d ↔
    ∃ c k, p.Yields c k ∧ c.name = d.typeName ∧ c.policy.mode = d.policy.mode := by
  constructor
  · rintro ⟨b, hb, hn, hm⟩
    obtain ⟨c, hc⟩ := mem_accessors_iff.1 hb
    obtain ⟨k, hk, rfl⟩ := AnnotatedClass.accessor_eq_ok_iff.1 (accessor_of_mem hc)
    exact ⟨c, k, (yields_iff config).2 ⟨hk, _, hc⟩, hn, hm⟩
  · rintro ⟨c, k, hy, hn, hm⟩
    obtain ⟨-, a, ha⟩ := (yields_iff config).1 hy
    obtain ⟨named, policy, -⟩ := AnnotatedClass.accessor_spec (accessor_of_mem ha)
    exact ⟨a, mem_accessors_iff.2 ⟨c, ha⟩, named.trans hn, by rw [policy, hm]⟩

theorem writes_of_mem {a : GeneratedAccessor} (ha : a ∈ (p.generate config).accessors) :
    ∃ s, p.Writes config s a ∧ a.code = s.text.toString ∧
      a.dependencies = s.lookups.map Dependency.typeName := by
  obtain ⟨c, hc⟩ := mem_accessors_iff.1 ha
  obtain ⟨k, hk, rfl⟩ := AnnotatedClass.accessor_eq_ok_iff.1 (accessor_of_mem hc)
  exact ⟨_, ⟨c, k, hc, hk, rfl⟩, rfl, Accessor.Subject.looked_eq _⟩

/-- An accessor looks up what its constructor wants and a class of the pass is called, as the policy
of the first class of that name calls for. -/
theorem mem_lookups_iff (closed : p.external = .empty) :
    d ∈ (c.subject k p.managed config).lookups ↔
      ∃ x ∈ k.params, x.wanted? = some (d.typeName, d.isNullable) ∧
        ∃ first, p.classes.find? (fun c => c.name = d.typeName) = some first ∧
          first.policy = d.policy := by
  simp only [AnnotatedClass.mem_lookups_subject, Parameter.dependency?_eq_some_iff,
    managed_of_closed closed, ManagedTypes.find?_ofClasses, Option.map_eq_some_iff]

/-- Every lookup that the accessors of the pass make has an accessor to go to. -/
def Complete (p : BuildPass) (config : Config) : Prop :=
  ∀ s a, p.Writes config s a → ∀ d ∈ s.lookups, (p.generate config).Answers d

/-- For each class that an accessor wants by its name, a class of that name gets an accessor and is
plain or awaited like the first of the name. -/
def Supplied (p : BuildPass) : Prop :=
  ∀ c k, p.Yields c k → ∀ x ∈ k.params, ∀ name isNullable, x.wanted? = some (name, isNullable) →
    ∀ first, p.classes.find? (fun c => c.name = name) = some first →
      ∃ c' k', p.Yields c' k' ∧ c'.name = name ∧ c'.policy.mode = first.policy.mode

/-- The dependencies of an accessor are what its text looks up. A pass is complete exactly if it is
supplied, for the policy of a class is known before it is known whether the class gets an
accessor. -/
theorem complete_iff_supplied (closed : p.external = .empty) (config : Config) :
    (∀ a ∈ (p.generate config).accessors, ∃ s, p.Writes config s a ∧ a.code = s.text.toString ∧
      a.dependencies = s.lookups.map Dependency.typeName) ∧
    (p.Complete config ↔ p.Supplied) := by
  refine ⟨fun a => writes_of_mem, fun complete => ?_, fun supplied => ?_⟩
  · intro c k hy x hx name isNullable hw first hf
    obtain ⟨hk, a, ha⟩ := (yields_iff config).1 hy
    have looked : ⟨name, first.policy, isNullable⟩ ∈ (c.subject k p.managed config).lookups :=
      (mem_lookups_iff closed).2 ⟨x, hx, hw, first, hf, rfl⟩
    exact answers_iff.1 (complete _ a ⟨c, k, ha, hk, rfl⟩ _ looked)
  · rintro s a ⟨c, k, ha, hk, rfl⟩ d hd
    obtain ⟨x, hx, hw, first, hf, hp⟩ := (mem_lookups_iff closed).1 hd
    rw [answers_iff, ← hp]
    exact supplied c k ((yields_iff config).2 ⟨hk, a, ha⟩) x hx _ _ hw first hf

def storePass (pool : Option Constructor) : BuildPass where
  classes := [
    ⟨"Pool", ⟨"src/db.rs", 1, 1⟩, .silent, pool⟩,
    ⟨"Store", ⟨"src/db.rs", 2, 1⟩, .silent,
      some ⟨.function "new", false, false, [⟨"pool", .named "Pool", .positional, true, none⟩]⟩⟩]
  external := .empty

/-- The pool cannot be made, and the store looks it up all the same. -/
theorem store_looks_up_a_pool_without_accessor :
    ¬∀ a ∈ ((storePass none).generate .standard).accessors, ∀ name ∈ a.dependencies,
      ∃ b ∈ ((storePass none).generate .standard).accessors, b.className = name := by
  decide +kernel

theorem store_without_a_pool_is_not_supplied :
    (storePass none).external = .empty ∧ ¬(storePass none).Complete .standard ∧
      ¬(storePass none).Supplied := by
  obtain ⟨written, iff⟩ := complete_iff_supplied (p := storePass none) rfl .standard
  have incomplete : ¬(storePass none).Complete .standard := by
    intro complete
    obtain ⟨a, ha, hn⟩ : ∃ a ∈ ((storePass none).generate .standard).accessors,
        "Pool" ∈ a.dependencies := by decide +kernel
    obtain ⟨s, writes, -, hd⟩ := written a ha
    obtain ⟨d, hd, hp⟩ := List.mem_map.1 (hd ▸ hn)
    obtain ⟨b, hb, he, -⟩ := complete s a writes d hd
    have absent : ∀ b ∈ ((storePass none).generate .standard).accessors, b.className ≠ "Pool" := by
      decide +kernel
    exact absent b hb (he.trans hp)
  exact ⟨rfl, incomplete, fun supplied => incomplete (iff.2 supplied)⟩

end BuildPass

end Wiring
