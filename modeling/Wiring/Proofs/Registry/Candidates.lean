import Wiring.Proofs.Registry.Composition
import Wiring.Proofs.Registry.EntryStates

/-!
Candidates for a registration. While a client works alone, the store agrees with the steps that were
taken: something was published in a slot exactly if it has an entry, and a producer that was run
without one was handed in or is the accessor of an eager policy. So what is registered without a run
has been run for other entries only.
-/
namespace Wiring.Registry

namespace History

/-- Nothing has been published in the slot. -/
def Vacant (h : History) (slot : SlotId) : Prop :=
  ∀ c e stored, (⟨c, .publish slot e, stored⟩ : Performed) ∉ h

def Unrun (h : History) (p : ProducerId) : Prop :=
  ∀ c slot key run, (⟨c, .beginRun slot key p, run⟩ : Performed) ∉ h

/-- The producer has been run for entries of other slots only. -/
def RunsElsewhere (h : History) (slot : SlotId) (p : ProducerId) : Prop :=
  ∀ c id key run h', ⟨c, .beginRun id key p, run⟩ :: h' <:+ h → id ≠ slot ∧ ¬Vacant h' id

theorem Vacant.before {h h' : History} {slot : SlotId} (vacant : h'.Vacant slot) (hs : h <:+ h') :
    h.Vacant slot :=
  fun c e stored there => vacant c e stored (hs.subset there)

end History

namespace Store

structure Grows (s s' : Store) : Prop where
  slots : s.slots.length ≤ s'.slots.length
  producers : s.producers ≤ s'.producers
  entry : ∀ id e, (s.slot id).entry = some e → (s'.slot id).entry = some e

/-- The producer is an accessor's, or it has been given its number. -/
def Numbered (s : Store) : ProducerId → Prop
  | .accessor _ => True
  | .given n => n < s.producers

/-- A run of the producer in the slot is one for an entry or one that is to register it. -/
structure MayRun (setting : Setting) (s : Store) (slot : SlotId) (p : ProducerId) : Prop where
  numbered : s.Numbered p
  owned : (s.slot slot).entry.isSome ∨
    ∀ key, p = .accessor key → (setting.accessor key).policy.isEager

section Growing

variable {s s' : Store} {setting : Setting} {slot : SlotId} {p : ProducerId}

theorem Grows.numbered (grows : s.Grows s') (numbered : s.Numbered p) : s'.Numbered p := by
  cases p with
  | accessor key => trivial
  | given n => exact Nat.lt_of_lt_of_le numbered grows.producers

theorem Grows.entry_isSome (grows : s.Grows s') (there : (s.slot slot).entry.isSome) :
    (s'.slot slot).entry.isSome := by
  obtain ⟨e, he⟩ := Option.isSome_iff_exists.1 there
  exact Option.isSome_of_eq_some (grows.entry slot e he)

theorem Grows.mayRun (grows : s.Grows s') (may : s.MayRun setting slot p) :
    s'.MayRun setting slot p :=
  ⟨grows.numbered may.numbered, may.owned.imp_left grows.entry_isSome⟩

end Growing

end Store

/-- What has to be so where a step is taken. -/
def Action.Allowed (setting : Setting) (s : Store) : Action → Prop
  | publish slot e =>
      slot < s.slots.length ∧ ∀ p, e.resolution.producer? = some p → s.Numbered p
  | beginRun slot _ p => s.MayRun setting slot p
  | _ => True

section Steps

variable {setting : Setting} {me : ClientId} {t t' : Trail} {s s' : Store} {a : Action}
  {r : a.Response}

theorem Action.slots_le (hp : a.perform me t s = some (r, t', s')) :
    s.slots.length ≤ s'.slots.length := by
  cases Action.alters hp with
  | nothing slots => exact Nat.le_of_eq (congrArg List.length slots.symm)
  | slot => exact Nat.le_of_eq (Store.length_update ..).symm
  | @index key =>
      cases hs : s.slotOf? key with
      | some id =>
          exact Nat.le_of_eq (by rw [Store.claim_of_some hs])
      | none =>
          rw [Store.claim_of_none hs, List.length_append]
          exact Nat.le_succ _

theorem Action.producers_le (hp : a.perform me t s = some (r, t', s')) :
    s.producers ≤ s'.producers := by
  have tallies := Action.tallies hp
  cases a with
  | newProducer => exact Nat.le_of_lt (Nat.lt_of_succ_le (Nat.le_of_eq tallies.2.2.symm))
  | endRun _ _ _ _ outcome => cases outcome <;> exact Nat.le_of_eq tallies.2.2.symm
  | _ => exact Nat.le_of_eq tallies.2.2.symm

theorem Action.grows (hp : a.perform me t s = some (r, t', s')) : s.Grows s' :=
  ⟨Action.slots_le hp, Action.producers_le hp, fun _ _ => Action.entry_kept hp⟩

theorem Action.slotOf?_lt (within : ∀ key id, s.slotOf? key = some id → id < s.slots.length)
    (hp : a.perform me t s = some (r, t', s')) {key : Key} {id : SlotId}
    (hk : s'.slotOf? key = some id) : id < s'.slots.length := by
  obtain ⟨-, there | ⟨new, rfl, rfl⟩⟩ := Action.slotOf?_cases hp hk
  · exact Nat.lt_of_lt_of_le (within key id there) (Action.slots_le hp)
  · cases hp
    rw [Store.claim_of_none new, List.length_append]
    exact Nat.lt_succ_self _

theorem Action.claimed_lt {key : Key} {slot : SlotId}
    (within : ∀ key id, s.slotOf? key = some id → id < s.slots.length)
    (hp : (Action.claimSlot key).perform me t s = some (slot, t', s')) :
    slot < s'.slots.length := by
  refine Action.slotOf?_lt within hp (?_ : s'.slotOf? key = some slot)
  cases hp
  exact Store.slotOf?_claim_found

theorem Action.entry_published {slot : SlotId} {e stored : Entry}
    (hp : (Action.publish slot e).perform me t s = some (stored, t', s'))
    (within : slot < s.slots.length) : (s'.slot slot).entry = some stored := by
  simp only [Action.perform] at hp
  split at hp
  · next existing he =>
      cases hp
      exact he
  · cases hp
    rw [s.slot_update within]

end Steps

/-- The store agrees with what has been done. -/
structure Situation.Consistent (setting : Setting) (w : Situation) : Prop where
  within : ∀ key slot, w.store.slotOf? key = some slot → slot < w.store.slots.length
  claimed : ∀ slot, w.history.Claims slot → slot < w.store.slots.length
  published : ∀ c slot e stored, (⟨c, .publish slot e, stored⟩ : Performed) ∈ w.history →
    (w.store.slot slot).entry.isSome ∧
      ∀ p, e.resolution.producer? = some p → w.store.Numbered p
  posted : ∀ slot e, (w.store.slot slot).entry = some e → ¬w.history.Vacant slot
  ran : ∀ c slot key p run, (⟨c, .beginRun slot key p, run⟩ : Performed) ∈ w.history →
    w.store.MayRun setting slot p
  owned : ∀ c slot key p run h', ⟨c, .beginRun slot key p, run⟩ :: h' <:+ w.history →
    ¬History.Vacant h' slot ∨ ∀ key, p = .accessor key → (setting.accessor key).policy.isEager

/-- A candidate that is still to be registered. A producer that was handed in has not been run, and
an accessor is a candidate for its own policy. -/
structure Candidate.Free (setting : Setting) (w : Situation) (x : Candidate) : Prop where
  numbered : w.store.Numbered x.producer
  policy : ∀ key, x.producer = .accessor key → x.policy = (setting.accessor key).policy
  unrun : ∀ n, x.producer = .given n → w.history.Unrun x.producer

section Situations

variable {setting : Setting} {me : ClientId} {w w' : Situation} {a : Action} {r : a.Response}
  {slot : SlotId} {x : Candidate}

theorem Program.advance_eq_some (hs : Program.advance me a w = some (r, w')) :
    a.perform me w.trail w.store = some (r, w'.trail, w'.store) ∧
      w'.history = ⟨me, a, r⟩ :: w.history := by
  unfold Program.advance at hs
  cases hp : a.perform me w.trail w.store with
  | none => simp [hp] at hs
  | some x =>
      simp only [hp] at hs
      cases hs
      exact ⟨rfl, rfl⟩

namespace Situation.Consistent

theorem start (setting : Setting) : Consistent setting ⟨.empty, .empty, []⟩ where
  within key slot h := by simp [Store.slotOf?, Store.empty] at h
  claimed slot h := by simp [History.Claims] at h
  published := by simp
  posted slot e he := by simp [Store.slot, Store.empty, Slot.fresh] at he
  ran := by simp
  owned := by simp

theorem advance (consistent : w.Consistent setting)
    (hs : Program.advance me a w = some (r, w')) (allowed : a.Allowed setting w.store) :
    w'.Consistent setting := by
  obtain ⟨hp, history⟩ := Program.advance_eq_some hs
  have grows : w.store.Grows w'.store := Action.grows hp
  have grown : w.history <:+ ⟨me, a, r⟩ :: w.history := List.suffix_cons _ _
  refine ⟨fun key slot => Action.slotOf?_lt consistent.within hp, fun slot claims => ?_,
    fun c slot e stored there => ?_, fun slot e he => ?_, fun c slot key p run there => ?_,
    fun c slot key p run h' began => ?_⟩
  · obtain ⟨c, key, there⟩ := claims
    rw [history] at there
    cases List.mem_cons.1 there with
    | inl now =>
        cases now
        exact Action.claimed_lt consistent.within hp
    | inr before =>
        exact Nat.lt_of_lt_of_le (consistent.claimed slot ⟨c, key, before⟩) grows.slots
  · rw [history] at there
    cases List.mem_cons.1 there with
    | inl now =>
        cases now
        obtain ⟨within, numbered⟩ := allowed
        exact ⟨Option.isSome_of_eq_some (Action.entry_published hp within),
          fun p own => grows.numbered (numbered p own)⟩
    | inr before =>
        obtain ⟨entry, numbered⟩ := consistent.published c slot e stored before
        exact ⟨grows.entry_isSome entry, fun p own => grows.numbered (numbered p own)⟩
  · rw [history]
    cases Action.entry_cases hp he with
    | inl there => exact fun vacant => consistent.posted slot e there (vacant.before grown)
    | inr now =>
        subst now
        exact fun vacant => vacant me e r List.mem_cons_self
  · rw [history] at there
    cases List.mem_cons.1 there with
    | inl now =>
        cases now
        exact grows.mayRun allowed
    | inr before => exact grows.mayRun (consistent.ran c slot key p run before)
  · rw [history] at began
    cases List.suffix_cons_iff.1 began with
    | inl now =>
        cases now
        refine allowed.owned.imp_left fun there => ?_
        obtain ⟨e, he⟩ := Option.isSome_iff_exists.1 there
        exact consistent.posted slot e he
    | inr before => exact consistent.owned c slot key p run h' before

theorem vacant (consistent : w.Consistent setting) (none : (w.store.slot slot).entry = none) :
    w.history.Vacant slot := by
  intro c e stored there
  have entry := (consistent.published c slot e stored there).1
  rw [none] at entry
  cases entry

end Situation.Consistent

namespace Candidate.Free

theorem accessor (w : Situation) (key : Key) :
    Free setting w ⟨.accessor key, (setting.accessor key).policy⟩ where
  numbered := trivial
  policy _ same := by cases same; rfl
  unrun n given := by cases given

/-- A number that has just been given out is the number of no producer that was run. -/
theorem fresh {id : ProducerId} (consistent : w.Consistent setting)
    (hs : Program.advance me .newProducer w = some (id, w')) (policy : Policy) :
    Free setting w' ⟨id, policy⟩ := by
  obtain ⟨hp, history⟩ := Program.advance_eq_some hs
  simp only [Action.perform, Option.some.injEq, Prod.mk.injEq] at hp
  obtain ⟨rfl, -, store⟩ := hp
  refine ⟨?_, fun key other => ?_, fun n _ c slot key run there => ?_⟩
  · rw [← store]
    exact Nat.lt_succ_self _
  · cases other
  · rw [history] at there
    cases List.mem_cons.1 there with
    | inl now => cases now
    | inr before => exact Nat.lt_irrefl _ (consistent.ran c slot key _ run before).numbered

theorem advance (free : x.Free setting w) (hs : Program.advance me a w = some (r, w'))
    (quiet : a.IsQuiet) : x.Free setting w' := by
  obtain ⟨hp, history⟩ := Program.advance_eq_some hs
  refine ⟨(Action.grows hp).numbered free.numbered, free.policy,
    fun n given c slot key run there => ?_⟩
  rw [history] at there
  cases List.mem_cons.1 there with
  | inl now =>
      cases now
      cases quiet
  | inr before => exact free.unrun n given c slot key run before

/-- What is to be registered without a run, in a slot that has no entry, has been run for entries of
other slots only. -/
theorem runsElsewhere (free : x.Free setting w) (consistent : w.Consistent setting)
    (deferred : x.policy.isEager = false) (none : (w.store.slot slot).entry = none) :
    w.history.RunsElsewhere slot x.producer := by
  intro c id key run h' began
  have there := began.subset List.mem_cons_self
  cases hx : x.producer with
  | given n => exact absurd there (free.unrun n hx c id key run)
  | accessor k =>
      have lazy : ¬∀ k, x.producer = .accessor k → (setting.accessor k).policy.isEager := by
        intro eager
        have eager := eager k hx
        rw [← free.policy k hx, deferred] at eager
        cases eager
      refine ⟨?_, (consistent.owned c id key _ run h' began).resolve_right lazy⟩
      rintro rfl
      have entry := (consistent.ran c id key _ run there).owned.resolve_right lazy
      rw [none] at entry
      cases entry

theorem mayRun (free : x.Free setting w) (eager : x.policy.isEager) :
    w.store.MayRun setting slot x.producer :=
  ⟨free.numbered, .inr fun key same => free.policy key same ▸ eager⟩

end Candidate.Free

end Situations

end Wiring.Registry
