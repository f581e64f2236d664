import Wiring.Generation

/-!
What the classes of a pass come to. An accessor takes its name, its policy and its dependencies from
its class, the managed types of a pass are those of its classes, and where no class is in error
the accessors are those of the classes, one for each and in order.
-/
namespace Wiring

theorem Table.find?_insertNew {α : Type} (t : Table α) (name other : String) (a : α) :
    (t.insertNew name a).find? other =
      if other = name then some ((t.find? name).getD a) else t.find? other := by
  rw [Table.insertNew, Table.find?_alter]

theorem Table.find?_empty {α : Type} (name : String) : (Table.empty : Table α).find? name = none :=
  rfl

/-- Of several classes of one name the first decides. -/
theorem ManagedTypes.find?_foldl (classes : List AnnotatedClass) (t : ManagedTypes)
    (name : String) :
    (classes.foldl (fun managed c => managed.insertNew c.name c.policy) t).find? name =
      (t.find? name).or ((classes.find? fun c => c.name = name).map AnnotatedClass.policy) := by
  induction classes generalizing t with
  | nil => simp
  | cons c classes ih =>
      rw [List.foldl_cons, ih, Table.find?_insertNew]
      by_cases hn : name = c.name
      · subst hn
        cases h : t.find? c.name with
        | none => simp
        | some policy => simp
      · simp [hn, Ne.symm hn]

theorem ManagedTypes.find?_ofClasses (classes : List AnnotatedClass) (name : String) :
    (ManagedTypes.ofClasses classes).find? name =
      (classes.find? fun c => c.name = name).map AnnotatedClass.policy := by
  rw [ofClasses, find?_foldl, Table.find?_empty, Option.none_or]

theorem BuildPass.managed_of_closed {p : BuildPass} (closed : p.external = .empty) :
    p.managed = ManagedTypes.ofClasses p.classes := by
  rw [BuildPass.managed, closed]
  rfl

/-- What a parameter depends on is managed, under the policy that the dependency has. -/
theorem Parameter.find?_of_dependency? {p : Parameter} {managed : ManagedTypes} {d : Dependency}
    (h : p.dependency? managed = some d) : managed.find? d.typeName = some d.policy := by
  simp only [Parameter.dependency?, Option.bind_eq_bind, Option.bind_eq_some_iff] at h
  obtain ⟨⟨name, isNullable⟩, -, policy, hp, h⟩ := h
  cases h
  exact hp

namespace Accessor

theorem looked?_source {style : Style} {managed : ManagedTypes} {heuristics : Bool} {p : Parameter}
    {name : String} (h : (source style managed heuristics p).looked? = some name) :
    ∃ d, p.dependency? managed = some d ∧ d.typeName = name := by
  unfold source at h
  split at h
  · next d hd =>
      cases h
      exact ⟨d, hd, rfl⟩
  · cases h
  · split at h <;> cases h

end Accessor

namespace AnnotatedClass

variable {c : AnnotatedClass} {managed : ManagedTypes} {config : Config} {a : GeneratedAccessor}

/-- Plain code that passes takes no parameter that has to be awaited. -/
theorem plain_of_callable {k : Constructor} (h : c.callable managed = .ok k)
    (plain : c.policy.isAsync = false) : awaitedParameter? managed k.params = none := by
  unfold callable at h
  split at h
  · cases h
  · split at h
    · cases h
    · simp only [plain] at h
      split at h
      · next ha => cases ha
      · split at h
        · cases h
        · next hn =>
            cases h
            exact hn

theorem policy_of_awaitedParameter? {params : List Parameter} {p : Parameter} {d : Dependency}
    (none_awaited : awaitedParameter? managed params = none) (hp : p ∈ params)
    (hd : p.dependency? managed = some d) : d.policy.isAsync = false := by
  have h := List.findSome?_eq_none_iff.1 none_awaited p hp
  rw [hd] at h
  cases ha : d.policy.isAsync with
  | false => rfl
  | true => simp [ha] at h

theorem accessor_spec (h : c.accessor managed config = .ok a) :
    a.className = c.name ∧ a.policy = c.policy ∧
      ∀ d ∈ a.dependencies, ∃ policy, managed.find? d = some policy ∧
        (c.policy.isAsync = false → policy.isAsync = false) := by
  unfold accessor at h
  split at h
  · next k hk =>
      cases h
      refine ⟨rfl, rfl, fun d hd => ?_⟩
      obtain ⟨argument, hm, hs⟩ := List.mem_filterMap.1 hd
      obtain ⟨p, hp, rfl⟩ := List.mem_map.1 hm
      obtain ⟨dependency, hdep, rfl⟩ := Accessor.looked?_source hs
      refine ⟨dependency.policy, Parameter.find?_of_dependency? hdep, fun plain => ?_⟩
      exact policy_of_awaitedParameter? (plain_of_callable hk plain) hp hdep
  · cases h

end AnnotatedClass

namespace BuildPass

variable {p : BuildPass} {managed : ManagedTypes} {config : Config} {taken : Taken}

theorem keepNew_of_apart {seen : List Mark} {classes : List AnnotatedClass}
    (new : ∀ c ∈ classes, mark c ∉ seen) (apart : classes.Pairwise fun c d => mark c ≠ mark d) :
    keepNew seen classes = classes := by
  induction classes generalizing seen with
  | nil => rfl
  | cons c rest ih =>
      obtain ⟨first, apart⟩ := List.pairwise_cons.1 apart
      rw [keepNew, if_neg (new c List.mem_cons_self), ih _ apart]
      intro d hd hm
      cases List.mem_cons.1 hm with
      | inl same => exact first d hd same.symm
      | inr old => exact new d (List.mem_cons_of_mem _ hd) old

theorem kept_of_names (names : (p.classes.map AnnotatedClass.name).Nodup) : p.kept = p.classes := by
  apply keepNew_of_apart (by simp)
  apply (List.pairwise_map.1 names).imp
  intro c d hne same
  apply hne
  exact congrArg (fun m : Mark => m.1.name) same

theorem accessor_of_outcome {c : AnnotatedClass} {a : GeneratedAccessor}
    (h : outcome managed config taken c = .ok a) : c.accessor managed config = .ok a := by
  unfold outcome at h
  cases hc : c.accessor managed config with
  | error e => simp [hc, bind, Except.bind] at h
  | ok accessor =>
      simp only [hc, bind, Except.bind] at h
      split at h
      · cases h
      · exact h

/-- Outcomes without an error are the accessors of the classes. -/
theorem map_accessor_of_clean {classes : List AnnotatedClass}
    (clean : ∀ o ∈ outcomesFrom managed config taken classes, ∀ e, o.2 ≠ .error e) :
    (classes.map fun c => c.accessor managed config) =
      ((outcomesFrom managed config taken classes).filterMap fun o => o.2.toOption).map
        Except.ok := by
  induction classes generalizing taken with
  | nil => rfl
  | cons c rest ih =>
      simp only [outcomesFrom, List.mem_cons, forall_eq_or_imp] at clean
      cases h : outcome managed config taken c with
      | error e => exact absurd h (clean.1 e)
      | ok a =>
          have others := ih (h ▸ clean.2)
          simp only [List.map_cons, accessor_of_outcome h, others, outcomesFrom, h,
            List.filterMap_cons, Except.toOption]

/-- Where no class is in error, there is an accessor for each class that is kept. -/
theorem map_accessor_kept (clean : (p.generate config).errors = []) :
    (p.kept.map fun c => c.accessor p.managed config) =
      (p.generate config).accessors.map Except.ok := by
  apply map_accessor_of_clean
  intro o ho e he
  have there := List.filterMap_eq_nil_iff.1 clean o ho
  obtain ⟨c, r⟩ := o
  cases he
  cases there

end BuildPass

end Wiring
