import Wiring.Proofs.Registry.Reach
import Mathlib.Data.List.Nodup

/-!
What refusals tell. The trail of a client names the resolutions that it has under way, outermost
first, and names the plain ones once more for every awaited one that is begun under them. So a call
is refused as circular where a resolution of its name is under way, of whatever key, and what a
refusal lists and counts are the resolutions under way where no awaited one lies under a plain one.
-/
namespace Wiring.Registry

abbrev Nesting := List (Key × Mode)

namespace Nesting

def names (n : Nesting) : List String := (n.map fun x => x.1.name).reverse

/-- How many pairs there are of an awaited resolution and a plain one that it lies under. -/
def crossings : Nesting → Nat
  | [] => 0
  | (_, .sync) :: rest => crossings rest
  | (_, .async) :: rest => crossings rest + rest.countP fun x => x.2 = .sync

theorem mem_names {n : Nesting} {name : String} : name ∈ n.names ↔ ∃ x ∈ n, x.1.name = name := by
  simp only [names, List.mem_reverse, List.mem_map]

@[simp] theorem length_names (n : Nesting) : n.names.length = n.length := by
  simp [names]

theorem names_cons (x : Key × Mode) (n : Nesting) : names (x :: n) = n.names ++ [x.1.name] := by
  simp [names]

end Nesting

def History.nesting (me : ClientId) : History → Nesting
  | [] => []
  | ⟨c, .enter mode key _, .ok _⟩ :: h =>
      if c = me then (key, mode) :: nesting me h else nesting me h
  | ⟨c, .leave .., _⟩ :: h => if c = me then (nesting me h).tail else nesting me h
  | _ :: h => nesting me h

def History.refusal? : History → Option (Key × ResolveError)
  | ⟨_, .enter _ key _, .error e⟩ :: _ => some (key, e)
  | _ => none

def nestingOf (calls : List Call) : Nesting := calls.map fun call => (call.key, call.mode)

section Trails

variable {calls : List Call} {name : String}

theorem nestingOf_cons (c : Call) (calls : List Call) :
    nestingOf (c :: calls) = (c.key, c.mode) :: nestingOf calls := rfl

theorem length_stack_trailOf (calls : List Call) :
    (trailOf calls).stack.length = (nestingOf calls).countP fun x => x.2 = .sync := by
  induction calls with
  | nil => rfl
  | cons c calls ih => cases hm : c.mode <;> simp [trailOf, Trail.enter, nestingOf_cons, hm, ih]

/-- Every resolution is named, and the plain ones again under each awaited one. -/
theorem length_names_trailOf (calls : List Call) :
    (trailOf calls).names.length = calls.length + (nestingOf calls).crossings := by
  induction calls with
  | nil => rfl
  | cons c calls ih =>
      have stack := length_stack_trailOf calls
      simp only [Trail.names, List.length_append] at ih
      cases hm : c.mode with
      | sync | async =>
          simp only [trailOf, Trail.enter, Trail.names, nestingOf_cons, hm, Nesting.crossings,
            List.length_append, List.length_cons, List.length_nil]
          omega

theorem names_trailOf_of_straight (straight : (nestingOf calls).crossings = 0) :
    (trailOf calls).names = (nestingOf calls).names := by
  induction calls with
  | nil => rfl
  | cons c calls ih =>
      have stack := length_stack_trailOf calls
      rw [nestingOf_cons] at straight ⊢
      cases hm : c.mode with
      | sync =>
          rw [hm] at straight
          rw [Nesting.names_cons, ← ih straight]
          simp [trailOf, Trail.enter, hm, Trail.names]
      | async =>
          rw [hm, Nesting.crossings] at straight
          have empty : (trailOf calls).stack = [] := List.length_eq_zero_iff.1 (by omega)
          rw [Nesting.names_cons, ← ih (by omega)]
          simp [trailOf, Trail.enter, hm, Trail.names, empty]

theorem mem_names_nestingOf :
    name ∈ (nestingOf calls).names ↔ name ∈ (trailOf calls).names := by
  simp [Nesting.mem_names, mem_names_trailOf, nestingOf]

theorem Nested.nodup_names (nested : Nested calls) : (nestingOf calls).names.Nodup := by
  rw [Nesting.names, List.nodup_reverse, nestingOf, List.map_map, List.Nodup, List.pairwise_map]
  exact nested.pairwise

theorem Trail.refusal?_eq_circular_iff {t : Trail} {path : List String} :
    t.refusal? name = some (.circular path) ↔ name ∈ t.names ∧ path = t.names ++ [name] := by
  unfold Trail.refusal?
  split
  · next h => simp [h, eq_comm]
  · next h => split <;> simp [h]

theorem Trail.refusal?_eq_depthExceeded_iff {t : Trail} {n : Nat} :
    t.refusal? name = some (.depthExceeded n) ↔
      name ∉ t.names ∧ maxDepth ≤ t.names.length ∧ n = t.names.length := by
  unfold Trail.refusal?
  split
  · next h => simp [h]
  · next h =>
      split
      · next deep => simp [h, deep, eq_comm]
      · next deep => simp [deep]

end Trails

section History

variable {terms : Terms} {key : Key} {offer : Option ProducerId} {stage stage' : Stage} {a : Action}
  {r : a.Response} {c : ClientId} {h : History}

theorem Action.IsAside.nesting (ha : a.IsAside) (me : ClientId) :
    History.nesting me (⟨c, a, r⟩ :: h) = h.nesting me := by
  cases a with
  | newProducer | findEntry | countEntries | clearEntries | readCell | note | pause | yield
  | observe => rfl
  | _ => cases ha

theorem Stage.Next.nesting (n : stage.Next terms key offer a r stage') (me : ClientId) :
    History.nesting me (⟨c, a, r⟩ :: h) = h.nesting me := by
  cases n <;> rfl

end History

def Nests (_ : List Key) (calls : ClientId → List Call) (_ : Store) (h : History) : Prop :=
  ∀ me, h.nesting me = nestingOf (calls me)

theorem nests_kept (terms : Terms) : Kept terms Nests := by
  intro keys calls s c a r calls' keys' s' h taken old me
  have move := taken.move
  by_cases hc : me = c
  · subst hc
    rw [Function.update_self]
    have now := old me
    generalize calls me = cs at move now
    cases move with
    | own n => rw [n.nesting, now]; rfl
    | enter => simp [History.nesting, now, nestingOf]
    | leave => simp [History.nesting, now, nestingOf]
    | refuse => exact now
    | aside _ ha => rw [ha.nesting, now]
  · rw [Function.update_of_ne hc, ← old]
    generalize calls c = cs at move
    cases move with
    | own n => exact n.nesting me
    | enter | leave => simp [History.nesting, Ne.symm hc]
    | refuse => rfl
    | aside _ ha => exact ha.nesting me

section Asked

variable {setting : Setting} {jobs : List (List Demand)} {m m' : Machine} {c : ClientId}
  {mode : Mode} {key : Key} {offer : Option ProducerId} {r : Except ResolveError (List String)}

/-- A call is refused what the trail of the calls around it says. -/
theorem Machine.Reaches.refusal (reach : (Machine.start setting jobs).Reaches m)
    (hs : m.step c = some m') (asked : m'.history = ⟨c, .enter mode key offer, r⟩ :: m.history) :
    ∃ calls, Nested calls ∧ m.history.nesting c = nestingOf calls ∧
      ∀ e, r = .error e ↔ (trailOf calls).refusal? key.name = some e := by
  obtain ⟨keys, calls, conducted, nests⟩ :=
    reach.conducted (J := Nests) (fun _ => rfl) (nests_kept _)
  obtain ⟨a, r', calls', keys', taken, history, -⟩ := conducted.step rfl hs (told_plain _)
  cases history.symm.trans asked
  refine ⟨calls c, conducted.tenure.nested c, nests c, fun e => ?_⟩
  have hp := taken.performs
  simp only [Action.perform] at hp
  split at hp
  · next e' refused =>
      obtain rfl := congrArg Prod.fst (Option.some.inj hp)
      simp [refused]
  · next free =>
      obtain rfl := congrArg Prod.fst (Option.some.inj hp)
      simp [free]

/-- A refusal at the end of a run in which client `c` alone takes steps. -/
theorem Machine.exists_refused (n : Nat) (key : Key) {e : ResolveError} {P : History → Prop}
    [DecidablePred P]
    (h : (m.follow (List.replicate n c)).any fun m₁ =>
      (m₁.step c).any (fun m₂ => m₂.history.refusal? = some (key, e)) ∧ P m₁.history) :
    ∃ m₁ m₂ mode offer, m.Reaches m₁ ∧ m₁.step c = some m₂ ∧
      m₂.history = ⟨c, .enter mode key offer, .error e⟩ :: m₁.history ∧ P m₁.history := by
  obtain ⟨m₁, reach, refused, hp⟩ := Machine.exists_of_follow (List.replicate n c)
    (P := fun m₁ => (m₁.step c).any (fun m₂ => m₂.history.refusal? = some (key, e)) ∧
      P m₁.history) h
  obtain ⟨m₂, hs, refused⟩ := (Option.any_eq_true _ _).1 refused
  obtain ⟨_, a, _, r, _, _, -, -, rfl⟩ := Machine.step_cases hs
  have latest := of_decide_eq_true refused
  simp only [History.refusal?] at latest
  split at latest
  · next eq =>
      cases eq
      cases latest
      exact ⟨m₁, _, _, _, reach, hs, rfl, hp⟩
  · cases latest

/-- A call is refused as circular where a resolution of its name is under way, and that is one of
its key, if there is any, unless two keys bear the name. Registries share the trail of a client, so
where there are several a key stands for a type on one of them, and a type has a key of its name on
each. -/
theorem circular_iff_name_resolved (reach : (Machine.start setting jobs).Reaches m)
    (hs : m.step c = some m') (asked : m'.history = ⟨c, .enter mode key offer, r⟩ :: m.history) :
    ((∃ path, r = .error (.circular path)) ↔
        ∃ x ∈ m.history.nesting c, x.1.name = key.name) ∧
      (((∃ path, r = .error (.circular path)) → ∃ x ∈ m.history.nesting c, x.1 = key) ↔
        ∀ x ∈ m.history.nesting c, x.1.name = key.name → x.1 = key) := by
  obtain ⟨calls, nested, nesting, refusal⟩ := reach.refusal hs asked
  rw [nesting]
  have named : (∃ path, r = .error (.circular path)) ↔
      ∃ x ∈ nestingOf calls, x.1.name = key.name := by
    simp only [refusal, Trail.refusal?_eq_circular_iff, exists_and_left, exists_eq, and_true,
      ← mem_names_nestingOf, Nesting.mem_names]
  refine ⟨named, ?_⟩
  rw [named]
  constructor
  · intro only x hx same
    obtain ⟨y, hy, rfl⟩ := only ⟨x, hx, same⟩
    have apart := List.inj_on_of_nodup_map (List.nodup_reverse.1 nested.nodup_names)
    rw [apart hx hy same]
  · intro all given
    obtain ⟨x, hx, same⟩ := given
    exact ⟨x, hx, all x hx same⟩

end Asked

def twinKey : Key := ⟨"left::Twin", "Twin"⟩

def otherTwinKey : Key := ⟨"right::Twin", "Twin"⟩

def unwatched : Setting := ⟨0, fun _ => ⟨.factory, fun _ _ => .finish (.ok ⟨none, []⟩)⟩⟩

def twinJobs : List (List Demand) :=
  [[⟨.inl (.register twinKey .factory fun _ =>
      .call (.register otherTwinKey .factory fun _ => .finish (.ok ⟨none, []⟩))
        fun reply => .finish reply.outcome), .plain⟩]]

theorem twin_looks_circular :
    ∃ m m' mode offer path, (Machine.start unwatched twinJobs).Reaches m ∧ m.step 0 = some m' ∧
      m'.history = ⟨0, .enter mode otherTwinKey offer, .error (.circular path)⟩ :: m.history ∧
        ∀ x ∈ m.history.nesting 0, x.1 ≠ otherTwinKey := by
  obtain ⟨m, m', mode, offer, reach, hs, refused, apart⟩ := Machine.exists_refused
    (m := Machine.start unwatched twinJobs) (c := 0) 10 otherTwinKey
    (e := .circular ["Twin", "Twin"]) (P := fun h => ∀ x ∈ h.nesting 0, x.1 ≠ otherTwinKey)
    (by decide +kernel)
  exact ⟨m, m', mode, offer, _, reach, hs, refused, apart⟩

theorem twin_is_refused_for_its_name :
    ∃ m m' mode offer r, (Machine.start unwatched twinJobs).Reaches m ∧ m.step 0 = some m' ∧
      m'.history = ⟨0, .enter mode otherTwinKey offer, r⟩ :: m.history ∧
      ((∃ path, r = .error (.circular path)) ↔
        ∃ x ∈ m.history.nesting 0, x.1.name = otherTwinKey.name) ∧
      (((∃ path, r = .error (.circular path)) → ∃ x ∈ m.history.nesting 0, x.1 = otherTwinKey) ↔
        ∀ x ∈ m.history.nesting 0, x.1.name = otherTwinKey.name → x.1 = otherTwinKey) := by
  obtain ⟨m, m', mode, offer, reach, hs, asked, -⟩ := Machine.exists_refused
    (m := Machine.start unwatched twinJobs) (c := 0) 10 otherTwinKey
    (e := .circular ["Twin", "Twin"]) (P := fun _ => True) (by decide +kernel)
  exact ⟨m, m', mode, offer, _, reach, hs, asked, circular_iff_name_resolved reach hs asked⟩

/-- The refusal of a call for `name`, if it is one, tells exactly what is under way. -/
structure Exact (n : Nesting) (name : String) (r : Except ResolveError (List String)) : Prop where
  path : ∀ path, r = .error (.circular path) → n.names.Nodup ∧ path = n.names ++ [name]
  depth : ∀ d, r = .error (.depthExceeded d) ↔
    name ∉ n.names ∧ d = maxDepth ∧ n.length = maxDepth

/-- Refusals are exact where no awaited resolution lies under a plain one, and only there: a call
that is told something inexact is one that such a pair lies around. -/
theorem exact_iff_straight {setting : Setting} {jobs : List (List Demand)} {m m' : Machine}
    {c : ClientId} {mode : Mode} {key : Key} {offer : Option ProducerId}
    {r : Except ResolveError (List String)} (reach : (Machine.start setting jobs).Reaches m)
    (hs : m.step c = some m') (asked : m'.history = ⟨c, .enter mode key offer, r⟩ :: m.history) :
    Exact (m.history.nesting c) key.name r ↔
      (m.history.nesting c).crossings = 0 ∨
        key.name ∉ (m.history.nesting c).names ∧
          (m.history.nesting c).length + (m.history.nesting c).crossings < maxDepth := by
  obtain ⟨calls, nested, nesting, refusal⟩ := reach.refusal hs asked
  rw [nesting]
  have counted := length_names_trailOf calls
  have length : (nestingOf calls).length = calls.length := by simp [nestingOf]
  have shallow := nested.length_le
  constructor
  · intro exact
    by_cases hn : key.name ∈ (trailOf calls).names
    · left
      have same := (exact.path _ ((refusal _).2 (Trail.refusal?_of_mem hn))).2
      have lengths := congrArg List.length same
      simp only [List.length_append, Nesting.length_names] at lengths
      omega
    · by_cases deep : maxDepth ≤ (trailOf calls).names.length
      · left
        have exceeded := Trail.refusal?_eq_depthExceeded_iff.2 ⟨hn, deep, rfl⟩
        have told := (exact.depth _).1 ((refusal _).2 exceeded)
        omega
      · exact .inr ⟨mem_names_nestingOf.not.2 hn, by omega⟩
  · intro given
    constructor
    · intro path circular
      obtain ⟨hn, rfl⟩ := Trail.refusal?_eq_circular_iff.1 ((refusal _).1 circular)
      cases given with
      | inl straight => exact ⟨nested.nodup_names, by rw [names_trailOf_of_straight straight]⟩
      | inr free => exact absurd (mem_names_nestingOf.2 hn) free.1
    · intro d
      rw [refusal, Trail.refusal?_eq_depthExceeded_iff, ← mem_names_nestingOf, counted]
      constructor
      · intro exceeded
        obtain ⟨hn, deep, rfl⟩ := exceeded
        cases given with
        | inl straight => exact ⟨hn, by omega, by omega⟩
        | inr free => omega
      · intro deep
        obtain ⟨hn, rfl, full⟩ := deep
        cases given with
        | inl straight => exact ⟨hn, by omega, by omega⟩
        | inr free => omega

def leftKey : Key := ⟨"app::Left", "Left"⟩

def rightKey : Key := ⟨"app::Right", "Right"⟩

def leftJobs : List (List Demand) :=
  [[⟨.inr (.registerAsync leftKey .factoryAsync fun _ =>
      .await (.registerAsync rightKey .factoryAsync fun _ =>
        .call (.get leftKey) fun reply => .finish reply.outcome)
          fun reply => .finish reply.outcome), .multi⟩,
    ⟨.inl (.get leftKey), .plain⟩]]

theorem left_is_listed_twice :
    ∃ m m' mode offer r, (Machine.start unwatched leftJobs).Reaches m ∧ m.step 0 = some m' ∧
      m'.history = ⟨0, .enter mode leftKey offer, r⟩ :: m.history ∧
        r = .error (.circular ["Left", "Right", "Left", "Left"]) ∧
          (m.history.nesting 0).names = ["Left", "Right"] := by
  obtain ⟨m, m', mode, offer, reach, hs, refused, named⟩ := Machine.exists_refused
    (m := Machine.start unwatched leftJobs) (c := 0) 31 leftKey
    (e := .circular ["Left", "Right", "Left", "Left"])
    (P := fun h => (h.nesting 0).names = ["Left", "Right"]) (by decide +kernel)
  exact ⟨m, m', mode, offer, _, reach, hs, refused, rfl, named⟩

theorem left_is_listed_once_in_awaited_calls :
    ∃ m m' mode offer r, (Machine.start unwatched leftJobs).Reaches m ∧ m.step 0 = some m' ∧
      m'.history = ⟨0, .enter mode leftKey offer, r⟩ :: m.history ∧
        (m.history.nesting 0).crossings = 0 ∧ Exact (m.history.nesting 0) leftKey.name r := by
  obtain ⟨m, m', mode, offer, reach, hs, asked, straight⟩ := Machine.exists_refused
    (m := Machine.start unwatched leftJobs) (c := 0) 18 leftKey
    (e := .circular ["Left", "Right", "Left"]) (P := fun h => (h.nesting 0).crossings = 0)
    (by decide +kernel)
  exact ⟨m, m', mode, offer, _, reach, hs, asked, straight,
    (exact_iff_straight reach hs asked).2 (.inl straight)⟩

end Wiring.Registry
