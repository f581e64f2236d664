import Mathlib.Data.List.Forall2
import Wiring.Proofs.Generation.Targets

/-!
Which classes get no accessor. A class needs a constructor. A literal must neither be awaited nor
fail, and takes its fields by name. Plain code must not depend on what has to be awaited. Each of
these is looked at only where those before it hold, and of several parameters the first that offends
is named.
-/
namespace Wiring

def IsFirst {α : Type} (p : α → Bool) (l : List α) (x : α) : Prop :=
  ∃ before after, l = before ++ x :: after ∧ p x ∧ ∀ y ∈ before, p y = false

theorem find?_eq_some_iff_isFirst {α : Type} {p : α → Bool} {l : List α} {x : α} :
    l.find? p = some x ↔ IsFirst p l x := by
  rw [List.find?_eq_some_iff_append]
  constructor
  · rintro ⟨hx, before, after, split, others⟩
    exact ⟨before, after, split, hx, fun y hy => by simpa using others y hy⟩
  · rintro ⟨before, after, split, hx, others⟩
    exact ⟨hx, before, after, split, fun y hy => by simp [others y hy]⟩

theorem IsFirst.holds {α : Type} {p : α → Bool} {l : List α} {x : α} (h : IsFirst p l x) : p x :=
  let ⟨_, _, _, hx, _⟩ := h
  hx

theorem exists_isFirst_iff {α : Type} {p : α → Bool} {l : List α} :
    (∃ x, IsFirst p l x) ↔ ∃ x ∈ l, p x := by
  simp only [← find?_eq_some_iff_isFirst, ← Option.isSome_iff_exists, List.find?_isSome]

/-- In lists whose elements correspond, so do the first of a kind. -/
theorem IsFirst.of_forall₂ {α : Type} {p : α → Bool} {R : α → α → Prop} {l l' : List α} {x : α}
    (same : List.Forall₂ R l l') (agree : ∀ x y, R x y → p y = p x) (first : IsFirst p l x) :
    ∃ y, R x y ∧ IsFirst p l' y := by
  simp only [← find?_eq_some_iff_isFirst] at first ⊢
  induction same with
  | nil => cases first
  | cons related _ ih =>
      rw [List.find?_cons] at first
      simp only [List.find?_cons, agree _ _ related]
      split at first
      · cases first
        exact ⟨_, related, rfl⟩
      · exact ih first

namespace Parameter

def isPositional (x : Parameter) : Bool := x.passing == .positional

def isAwaited (managed : ManagedTypes) (x : Parameter) : Bool :=
  (x.dependency? managed).any fun d => d.policy.isAsync

/-- Two parameters that may differ in whether they are required, and in their types and defaults as
long as they have the same dependency or none. -/
structure Alike (managed : ManagedTypes) (x y : Parameter) : Prop where
  name : y.name = x.name
  passing : y.passing = x.passing
  dependency? : y.dependency? managed = x.dependency? managed

theorem Alike.symm {managed : ManagedTypes} {x y : Parameter} (h : Alike managed x y) :
    Alike managed y x :=
  ⟨h.name.symm, h.passing.symm, h.dependency?.symm⟩

theorem Alike.isPositional {managed : ManagedTypes} {x y : Parameter} (h : Alike managed x y) :
    y.isPositional = x.isPositional := by
  rw [Parameter.isPositional, h.passing, Parameter.isPositional]

theorem Alike.isAwaited {managed : ManagedTypes} {x y : Parameter} (h : Alike managed x y) :
    y.isAwaited managed = x.isAwaited managed := by
  rw [Parameter.isAwaited, h.dependency?, Parameter.isAwaited]

end Parameter

open Parameter (Alike isPositional isAwaited)

namespace Constructor

variable {k : Constructor}

/-- What can be called: a function, or a literal that is neither awaited nor fails and takes its
fields by name. -/
def Usable (k : Constructor) : Prop :=
  k.style = .literal → ¬(k.isAsync ∨ k.isFallible) ∧ ∀ x ∈ k.params, ¬x.isPositional

theorem unusable?_of_effect (literal : k.style = .literal) (effect : k.isAsync ∨ k.isFallible) :
    k.unusable? = some .literalEffect := by
  simp [unusable?, literal, effect]

theorem unusable?_of_calm (literal : k.style = .literal) (calm : ¬(k.isAsync ∨ k.isFallible)) :
    k.unusable? = (k.params.find? isPositional).map fun x => .positionalField x.name := by
  simp only [unusable?, literal, Bool.or_eq_true, calm, if_false]
  rfl

theorem unusable?_eq_none_iff : k.unusable? = none ↔ k.Usable := by
  unfold Usable
  cases literal : k.style with
  | function name => simp [unusable?, literal]
  | literal =>
      by_cases effect : k.isAsync ∨ k.isFallible
      · simp [unusable?_of_effect literal effect, effect]
      · simp [unusable?_of_calm literal effect, effect]

/-- An offence of a literal comes before one of its fields. -/
theorem not_usable_iff : ¬k.Usable ↔ k.style = .literal ∧
    (k.isAsync ∨ k.isFallible ∨ ∃ x ∈ k.params, x.isPositional) := by
  by_cases literal : k.style = .literal
  · simp only [Usable, literal, forall_const, true_and, not_and_or, not_not, not_forall,
      exists_prop, or_assoc]
  · simp only [Usable, literal, false_implies, not_true_eq_false, false_and]

theorem Usable.alike {managed : ManagedTypes} {params : List Parameter}
    (same : List.Forall₂ (Alike managed) k.params params) (h : k.Usable) :
    { k with params := params }.Usable := by
  intro literal
  refine ⟨(h literal).1, fun y hy positional => ?_⟩
  obtain ⟨first, hf⟩ := exists_isFirst_iff.2 ⟨y, hy, positional⟩
  obtain ⟨x, -, hx⟩ := hf.of_forall₂ same.flip fun _ _ alike => alike.symm.isPositional
  obtain ⟨x, inside, positional⟩ := exists_isFirst_iff.1 ⟨x, hx⟩
  exact (h literal).2 x inside positional

end Constructor

namespace AnnotatedClass

variable {c : AnnotatedClass} {k : Constructor} {fault : GenerationFault}
  {managed : ManagedTypes} {params : List Parameter}

/-- Why a class gets no accessor. -/
inductive Faulty (c : AnnotatedClass) (managed : ManagedTypes) : GenerationFault → Prop
  | absent (none_ : c.constructor = none) : Faulty c managed (.noUsableConstructor .absent)
  | effect {k : Constructor} (hk : c.constructor = some k) (literal : k.style = .literal)
      (effect : k.isAsync ∨ k.isFallible) : Faulty c managed (.noUsableConstructor .literalEffect)
  | positional {k : Constructor} {x : Parameter} (hk : c.constructor = some k)
      (literal : k.style = .literal) (calm : ¬(k.isAsync ∨ k.isFallible))
      (first : IsFirst isPositional k.params x) :
      Faulty c managed (.noUsableConstructor (.positionalField x.name))
  | awaited {k : Constructor} {x : Parameter} {d : Dependency} (hk : c.constructor = some k)
      (usable : k.Usable) (plain : c.policy.isAsync = false)
      (first : IsFirst (isAwaited managed) k.params x) (hd : x.dependency? managed = some d) :
      Faulty c managed (.asyncDependency x.name d.typeName)

theorem awaitedParameter?_eq_some_iff {parameter dependency : String} :
    awaitedParameter? managed params = some (parameter, dependency) ↔
      ∃ x d, IsFirst (isAwaited managed) params x ∧ x.dependency? managed = some d ∧
        x.name = parameter ∧ d.typeName = dependency := by
  have here (x : Parameter) :
      (((x.dependency? managed).filter fun d => d.policy.isAsync).map fun d =>
          (x.name, d.typeName)) = some (parameter, dependency) ↔
        x.isAwaited managed ∧
          ∃ d, x.dependency? managed = some d ∧ x.name = parameter ∧ d.typeName = dependency := by
    cases hd : x.dependency? managed <;> simp [isAwaited, hd]
  have before (x : Parameter) :
      (((x.dependency? managed).filter fun d => d.policy.isAsync).map fun d =>
          (x.name, d.typeName)) = none ↔ x.isAwaited managed = false := by
    cases hd : x.dependency? managed <;> simp [isAwaited, hd]
  simp only [awaitedParameter?, List.findSome?_eq_some_iff, here, before]
  constructor
  · rintro ⟨front, x, after, split, ⟨awaited, d, hd, named⟩, others⟩
    exact ⟨x, d, ⟨front, after, split, awaited, others⟩, hd, named⟩
  · rintro ⟨x, d, ⟨front, after, split, awaited, others⟩, hd, named⟩
    exact ⟨front, x, after, split, ⟨awaited, d, hd, named⟩, others⟩

theorem callable_eq_error_iff : c.callable managed = .error fault ↔ c.Faulty managed fault := by
  constructor
  · intro h
    unfold callable at h
    split at h
    · next none_ =>
      cases h
      exact .absent none_
    · next k hk =>
      split at h
      · next reason unusable =>
        cases h
        have offends : ¬k.Usable := by
          rw [← Constructor.unusable?_eq_none_iff, unusable]
          nofun
        have literal := (Constructor.not_usable_iff.1 offends).1
        by_cases effect : k.isAsync ∨ k.isFallible
        · cases (Constructor.unusable?_of_effect literal effect).symm.trans unusable
          exact .effect hk literal effect
        · obtain ⟨x, found, rfl⟩ := Option.map_eq_some_iff.1
            ((Constructor.unusable?_of_calm literal effect).symm.trans unusable)
          exact .positional hk literal effect (find?_eq_some_iff_isFirst.1 found)
      · next usable =>
        split at h
        · cases h
        · next plain =>
          split at h
          · next parameter dependency found =>
            cases h
            obtain ⟨x, d, first, hd, rfl, rfl⟩ := awaitedParameter?_eq_some_iff.1 found
            exact .awaited hk (Constructor.unusable?_eq_none_iff.1 usable) (by simpa using plain)
              first hd
          · cases h
  · intro h
    unfold callable
    cases h with
    | absent none_ => rw [none_]
    | effect hk literal effect => simp only [hk, Constructor.unusable?_of_effect literal effect]
    | positional hk literal calm first =>
        simp only [hk, Constructor.unusable?_of_calm literal calm,
          find?_eq_some_iff_isFirst.2 first, Option.map_some]
    | awaited hk usable plain first hd =>
        have found := awaitedParameter?_eq_some_iff.2 ⟨_, _, first, hd, rfl, rfl⟩
        simp only [hk, Constructor.unusable?_eq_none_iff.2 usable, plain, found,
          Bool.false_eq_true, if_false]

theorem accessor_eq_error_iff {config : Config} {e : GenerationError} :
    c.accessor managed config = .error e ↔
      ∃ fault, c.Faulty managed fault ∧ e = ⟨c.name, c.location, fault⟩ := by
  simp only [← callable_eq_error_iff]
  unfold accessor
  cases c.callable managed with
  | ok k => simp
  | error fault => simp [eq_comm]

/-- Parameters that are alike are at fault alike. -/
theorem Faulty.alike (same : List.Forall₂ (Alike managed) k.params params)
    (h : { c with constructor := some k }.Faulty managed fault) :
    { c with constructor := some { k with params := params } }.Faulty managed fault := by
  have positional : ∀ x y, Alike managed x y → y.isPositional = x.isPositional :=
    fun _ _ alike => alike.isPositional
  cases h with
  | absent none_ => cases none_
  | effect hk literal effect =>
      cases hk
      exact .effect rfl literal effect
  | positional hk literal calm first =>
      cases hk
      obtain ⟨y, alike, first⟩ := first.of_forall₂ same positional
      exact alike.name ▸ .positional rfl literal calm first
  | awaited hk usable plain first hd =>
      cases hk
      obtain ⟨y, alike, first⟩ := first.of_forall₂ same fun _ _ alike => alike.isAwaited
      exact alike.name ▸
        .awaited rfl (usable.alike same) plain first (alike.dependency?.trans hd)

theorem exists_faulty_iff : (∃ fault, c.Faulty managed fault) ↔
    c.constructor = none ∨ ∃ k, c.constructor = some k ∧
      (k.style = .literal ∧ (k.isAsync ∨ k.isFallible ∨ ∃ x ∈ k.params, x.isPositional) ∨
        c.policy.isAsync = false ∧ ∃ x ∈ k.params, x.isAwaited managed) := by
  constructor
  · rintro ⟨fault, h⟩
    cases h with
    | absent none_ => exact .inl none_
    | effect hk literal effect =>
        exact .inr ⟨_, hk, .inl ⟨literal, or_assoc.1 (.inl effect)⟩⟩
    | positional hk literal _ first =>
        exact .inr ⟨_, hk, .inl ⟨literal, .inr (.inr (exists_isFirst_iff.1 ⟨_, first⟩))⟩⟩
    | awaited hk _ plain first =>
        exact .inr ⟨_, hk, .inr ⟨plain, exists_isFirst_iff.1 ⟨_, first⟩⟩⟩
  · rintro (none_ | ⟨k, hk, offence⟩)
    · exact ⟨_, .absent none_⟩
    · by_cases usable : k.Usable
      · obtain literal | ⟨plain, awaited⟩ := offence
        · exact absurd usable (Constructor.not_usable_iff.2 literal)
        · obtain ⟨x, first⟩ := exists_isFirst_iff.2 awaited
          obtain ⟨d, hd, -⟩ := (Option.any_eq_true _ _).1 first.holds
          exact ⟨_, .awaited hk usable plain first hd⟩
      · obtain ⟨literal, offence⟩ := Constructor.not_usable_iff.1 usable
        by_cases effect : k.isAsync ∨ k.isFallible
        · exact ⟨_, .effect hk literal effect⟩
        · have positional := ((or_assoc.2 offence).resolve_left effect)
          obtain ⟨x, first⟩ := exists_isFirst_iff.2 positional
          exact ⟨_, .positional hk literal effect first⟩

/-- A class gets no accessor exactly if it is at fault, and the error says what its fault is.
Whether parameters are required, what types they have that are no dependencies, and how the
generator is configured plays no part in it. -/
theorem no_accessor_iff_faulty (c : AnnotatedClass) (managed : ManagedTypes) (config : Config) :
    (∀ e, c.accessor managed config = .error e ↔
      ∃ fault, c.Faulty managed fault ∧ e = ⟨c.name, c.location, fault⟩) ∧
    ((∃ e, c.accessor managed config = .error e) ↔
      c.constructor = none ∨ ∃ k, c.constructor = some k ∧
        (k.style = .literal ∧ (k.isAsync ∨ k.isFallible ∨ ∃ x ∈ k.params, x.isPositional) ∨
          c.policy.isAsync = false ∧ ∃ x ∈ k.params, x.isAwaited managed)) ∧
    ∀ k params config' e, c.constructor = some k → List.Forall₂ (Alike managed) k.params params →
      (c.accessor managed config = .error e ↔
        { c with constructor := some { k with params := params } }.accessor managed config' =
          .error e) := by
  refine ⟨fun e => accessor_eq_error_iff, ?_, ?_⟩
  · rw [← exists_faulty_iff]
    simp only [accessor_eq_error_iff]
    constructor
    · rintro ⟨_, fault, h, rfl⟩
      exact ⟨fault, h⟩
    · rintro ⟨fault, h⟩
      exact ⟨_, fault, h, rfl⟩
  · intro k params config' e hk same
    have itself : { c with constructor := some k } = c := by rw [← hk]
    have back : List.Forall₂ (Alike managed) params k.params :=
      same.flip.imp fun _ _ alike => alike.symm
    simp only [accessor_eq_error_iff]
    refine exists_congr fun fault => and_congr_left fun _ => ⟨fun h => ?_, fun h => ?_⟩
    · exact Faulty.alike same (itself ▸ h)
    · exact itself ▸ Faulty.alike (k := { k with params := params }) back h

def pooled (value : TypeRef) (required : Bool) : AnnotatedClass :=
  ⟨"Store", ⟨"src/store.rs", 3, 1⟩, .silent, some ⟨.function "new", false, false,
    [⟨"size", value, .positional, required, none⟩,
      ⟨"pool", .named "Pool", .positional, true, none⟩]⟩⟩

/-- The pool has to be awaited, and that is the fault whatever the other value is. -/
theorem store_of_awaited_pool_at_fault :
    (∃ fault, (pooled .text true).Faulty (.insert .empty "Pool" .singletonAsync) fault) ∧
    List.Forall₂ (Alike (.insert .empty "Pool" .singletonAsync))
      [⟨"size", .text, .positional, true, none⟩, ⟨"pool", .named "Pool", .positional, true, none⟩]
      [⟨"size", .integer, .positional, false, none⟩,
        ⟨"pool", .named "Pool", .positional, true, none⟩] ∧
    (pooled .integer false).accessor (.insert .empty "Pool" .singletonAsync) .standard =
      .error ⟨"Store", ⟨"src/store.rs", 3, 1⟩, .asyncDependency "pool" "Pool"⟩ := by
  obtain ⟨error, -, alike⟩ :=
    no_accessor_iff_faulty (pooled .text true) (.insert .empty "Pool" .singletonAsync) .standard
  obtain ⟨fault, faulty, -⟩ := (error _).1 rfl
  have same : List.Forall₂ (Alike (.insert .empty "Pool" .singletonAsync))
      [⟨"size", .text, .positional, true, none⟩, ⟨"pool", .named "Pool", .positional, true, none⟩]
      [⟨"size", .integer, .positional, false, none⟩,
        ⟨"pool", .named "Pool", .positional, true, none⟩] :=
    .cons ⟨rfl, rfl, rfl⟩ (.cons ⟨rfl, rfl, rfl⟩ .nil)
  exact ⟨⟨fault, faulty⟩, same, (alike _ _ .standard _ rfl same).1 rfl⟩

end AnnotatedClass

end Wiring
