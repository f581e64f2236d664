import Wiring.Accessor
import Mathlib.Logic.Relation
import Mathlib.Data.List.Nodup
import Mathlib.Data.List.Chain

/-!
Cycles among generated accessors. A call that can reach a cycle runs along the first dependency from
which one can be reached, and on from there, until it comes to a class that it is resolving already.
-/
namespace Wiring

def Needs (accessors : List GeneratedAccessor) (a b : GeneratedAccessor) : Prop :=
  a ∈ accessors ∧ b ∈ accessors ∧ b.className ∈ a.dependencies

def CycleFrom (accessors : List GeneratedAccessor) (a : GeneratedAccessor) : Prop :=
  ∃ b, Relation.ReflTransGen (Needs accessors) a b ∧ Relation.TransGen (Needs accessors) b b

/-- `b` is the first that `a` looks up and from which a cycle can be reached. -/
structure Stumbles (accessors : List GeneratedAccessor) (a b : GeneratedAccessor) : Prop where
  needs : Needs accessors a b
  cycle : CycleFrom accessors b
  first : ∃ before after, a.dependencies = before ++ b.className :: after ∧
    ∀ x, Needs accessors a x → x.className ∈ before → ¬CycleFrom accessors x

/-- Where `chain` is being resolved and `a` is called for, `path` is the chain that is being
resolved when something is called for again, with that at its end. -/
inductive Closes (accessors : List GeneratedAccessor) :
    List GeneratedAccessor → GeneratedAccessor → List GeneratedAccessor → Prop
  | again {chain : List GeneratedAccessor} {a : GeneratedAccessor} (h : a ∈ chain) :
      Closes accessors chain a (chain ++ [a])
  | on {chain path : List GeneratedAccessor} {a b : GeneratedAccessor} (h : a ∉ chain)
      (hb : Stumbles accessors a b) (rest : Closes accessors (chain ++ [a]) b path) :
      Closes accessors chain a path

variable {accessors : List GeneratedAccessor} {a b : GeneratedAccessor}

theorem CycleFrom.needed (h : CycleFrom accessors b) (needs : Needs accessors a b) :
    CycleFrom accessors a := by
  obtain ⟨c, reach, cycle⟩ := h
  exact ⟨c, .head needs reach, cycle⟩

theorem CycleFrom.needs (h : CycleFrom accessors a) :
    ∃ b, Needs accessors a b ∧ CycleFrom accessors b := by
  obtain ⟨c, reach, cycle⟩ := h
  cases Relation.ReflTransGen.cases_head reach with
  | inl eq =>
      subst eq
      obtain ⟨b, needs, back⟩ := Relation.TransGen.head'_iff.1 cycle
      exact ⟨b, needs, a, back, cycle⟩
  | inr right =>
      obtain ⟨b, needs, reach⟩ := right
      exact ⟨b, needs, c, reach, cycle⟩

/-- Whoever needs something from which it is needed again is on a cycle. -/
theorem CycleFrom.of_needed (reach : Relation.ReflTransGen (Needs accessors) a b)
    (needs : Needs accessors b a) : CycleFrom accessors a :=
  ⟨a, .refl, Relation.TransGen.tail' reach needs⟩

theorem Stumbles.unique
    (names : ∀ x ∈ accessors, ∀ y ∈ accessors, x.className = y.className → x = y)
    {c : GeneratedAccessor} (hb : Stumbles accessors a b) (hc : Stumbles accessors a c) :
    b = c := by
  obtain ⟨before, after, split, good⟩ := hb.first
  obtain ⟨before', after', split', good'⟩ := hc.first
  cases List.append_eq_append_iff.1 (split.symm.trans split') with
  | inl left =>
      obtain ⟨more, hm, he⟩ := left
      cases more with
      | nil => exact names b hb.needs.2.1 c hc.needs.2.1 (List.cons.inj he).1
      | cons d more =>
          obtain ⟨rfl, -⟩ := List.cons.inj he
          exact absurd hb.cycle (good' b hb.needs (by simp [hm]))
  | inr right =>
      obtain ⟨more, hm, he⟩ := right
      cases more with
      | nil => exact names b hb.needs.2.1 c hc.needs.2.1 (List.cons.inj he).1.symm
      | cons d more =>
          obtain ⟨rfl, -⟩ := List.cons.inj he
          exact absurd hc.cycle (good c hc.needs (by simp [hm]))

namespace Closes

variable {chain path path' : List GeneratedAccessor}

theorem unique (names : ∀ x ∈ accessors, ∀ y ∈ accessors, x.className = y.className → x = y)
    (h : Closes accessors chain a path) (h' : Closes accessors chain a path') : path = path' := by
  induction h generalizing path' with
  | again ha =>
      cases h' with
      | again => rfl
      | on fresh => exact absurd ha fresh
  | on fresh hb _ ih =>
      cases h' with
      | again ha => exact absurd ha fresh
      | on _ hc rest =>
          cases hb.unique names hc
          exact ih rest

/-- The path that closes goes on from the chain, each of it needs the next, and only its last
stands on it twice. -/
theorem shape (h : Closes accessors chain a path) (nodup : chain.Nodup)
    (links : (chain ++ [a]).IsChain (Needs accessors)) :
    (∃ rest, path = chain ++ a :: rest) ∧ path.IsChain (Needs accessors) ∧
      ∃ before last, path = before ++ [last] ∧ last ∈ before ∧ before.Nodup := by
  induction h with
  | @again chain a ha => exact ⟨⟨[], rfl⟩, links, chain, a, rfl, ha, nodup⟩
  | @on chain path a b fresh hb _ ih =>
      have apart : (chain ++ [a]).Nodup := by
        rw [List.nodup_append', List.disjoint_singleton]
        exact ⟨nodup, List.nodup_singleton a, fresh⟩
      have linked : (chain ++ [a] ++ [b]).IsChain (Needs accessors) := by
        refine List.isChain_append.2 ⟨links, .singleton b, fun x hx y hy => ?_⟩
        simp only [List.getLast?_append, List.getLast?_singleton, Option.some_or,
          Option.mem_some_iff] at hx
        simp only [List.head?_cons, Option.mem_some_iff] at hy
        subst hx hy
        exact hb.needs
      obtain ⟨⟨rest, hp⟩, rest'⟩ := ih apart linked
      exact ⟨⟨b :: rest, by rw [hp, List.append_assoc, List.singleton_append]⟩, rest'⟩

end Closes

end Wiring
