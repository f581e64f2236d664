import Wiring.Proofs.Registry.EmptySlots

/-!
Gates that are held. A gate matters to those alone who try it or wait for it. Every other step is
taken just so, and with the same response, where the gate has been given back.
-/
namespace Wiring.Registry

def Store.freed (s : Store) (slot : SlotId) : Store :=
  s.update slot fun σ => { σ with gate := none }

def Machine.freed (m : Machine) (slot : SlotId) : Machine :=
  { m with store := m.store.freed slot }

namespace Store

variable {s : Store} {slot id : SlotId} {c : ClientId} {key : Key}

theorem update_comm {f g : Slot → Slot} (comm : id = slot → ∀ σ, f (g σ) = g (f σ)) :
    (s.update slot g).update id f = (s.update id f).update slot g := by
  by_cases same : id = slot
  · subst same
    have funs : f ∘ g = g ∘ f := funext (comm rfl)
    simp only [update, List.modify_modify_eq, funs]
  · simp only [update, List.modify_modify_ne _ _ _ (Ne.symm same)]

theorem freed_update {f : Slot → Slot}
    (comm : ∀ σ, f { σ with gate := none } = { f σ with gate := none }) :
    (s.freed slot).update id f = (s.update id f).freed slot :=
  update_comm fun _ => comm

theorem freed_update_of_ne (apart : id ≠ slot) (f : Slot → Slot) :
    (s.freed slot).update id f = (s.update id f).freed slot :=
  update_comm fun same => absurd same apart

@[simp] theorem entry_freed : ((s.freed slot).slot id).entry = (s.slot id).entry :=
  view_update Slot.entry fun _ => rfl

@[simp] theorem cell_freed : ((s.freed slot).slot id).cell = (s.slot id).cell :=
  view_update Slot.cell fun _ => rfl

@[simp] theorem entryOf?_freed : (s.freed slot).entryOf? key = s.entryOf? key := by
  simp only [entryOf?, entry_freed]
  rfl

@[simp] theorem registered_freed : (s.freed slot).registered = s.registered := by
  simp only [registered, entry_freed]
  rfl

theorem gate_freed_of_ne (apart : id ≠ slot) :
    ((s.freed slot).slot id).gate = (s.slot id).gate := by
  rw [freed, slot_update_of_ne s apart]

theorem lt_length_of_gate (held : (s.slot slot).gate = some c) : slot < s.slots.length := by
  refine Nat.lt_of_not_le fun beyond => ?_
  rw [slot_of_length_le s beyond] at held
  cases held

theorem freed_claim (within : slot < s.slots.length) :
    (s.freed slot).claim key = ((s.claim key).1, (s.claim key).2.freed slot) := by
  cases hs : s.slotOf? key with
  | some id => rw [claim_of_some hs, claim_of_some (s := s.freed slot) hs]
  | none =>
      have slots : (s.slots ++ [Slot.fresh]).modify slot (fun σ => { σ with gate := none }) =
          s.slots.modify slot (fun σ => { σ with gate := none }) ++ [Slot.fresh] := by
        refine List.ext_getElem? fun i => ?_
        simp only [List.getElem?_modify, List.getElem?_append, List.length_modify]
        grind
      rw [claim_of_none hs, claim_of_none (s := s.freed slot) hs]
      simp only [freed, update, List.length_modify, slots]

end Store

section Steps

variable {c d : ClientId} {t t' : Trail} {s s' : Store} {a : Action} {r : a.Response}
  {slot : SlotId}

theorem Action.perform_tryGate_freed {id : SlotId} {r : Bool}
    (held : (s.slot slot).gate = some c)
    (hp : (Action.tryGate id).perform d t s = some (r, t', s')) :
    id = slot ∧ r = false ∨
      (Action.tryGate id).perform d t (s.freed slot) = some (r, t', s'.freed slot) := by
  by_cases same : id = slot
  · subst same
    simp only [Action.perform, held] at hp
    cases hp
    exact .inl ⟨rfl, rfl⟩
  · right
    simp only [Action.perform, Store.gate_freed_of_ne same] at hp ⊢
    split at hp <;> cases hp
    · simp only [*]
    · simp only [*, Store.freed_update_of_ne same]

theorem Action.perform_takeGate_freed {id : SlotId} {r : Unit}
    (held : (s.slot slot).gate = some c)
    (hp : (Action.takeGate id).perform d t s = some (r, t', s')) :
    (Action.takeGate id).perform d t (s.freed slot) = some (r, t', s'.freed slot) := by
  by_cases same : id = slot
  · subst same
    simp [Action.perform, held] at hp
  · simp only [Action.perform, Store.gate_freed_of_ne same] at hp ⊢
    split at hp <;> cases hp
    simp only [*, Store.freed_update_of_ne same]

/-- A step finds the gate held, or it is taken just so with the gate given back. -/
theorem Action.perform_freed (held : (s.slot slot).gate = some c)
    (hp : a.perform d t s = some (r, t', s')) :
    (⟨d, a, r⟩ : Performed) = ⟨d, .tryGate slot, false⟩ ∨
      a.perform d t (s.freed slot) = some (r, t', s'.freed slot) := by
  cases a with
  | tryGate id =>
      refine (Action.perform_tryGate_freed held hp).imp_left fun finds => ?_
      rw [finds.1, finds.2]
  | takeGate id => exact .inr (Action.perform_takeGate_freed held hp)
  | freeGate | fillCell | freeCell =>
      cases hp
      exact .inr (congrArg (fun x => some ((), t, x)) (Store.freed_update fun _ => rfl))
  | publish id e =>
      right
      simp only [Action.perform, Store.entry_freed] at hp ⊢
      split at hp <;> cases hp
      · simp only [*]
      · rw [Store.freed_update fun _ => rfl]
  | claimCell id =>
      right
      simp only [Action.perform, Store.cell_freed] at hp ⊢
      split at hp <;> cases hp
      · simp only [*]
      · rw [Store.freed_update fun _ => rfl]
  | readCell id =>
      right
      simp only [Action.perform, Store.cell_freed] at hp ⊢
      split at hp <;> cases hp <;> simp only [*]
  | claimSlot key =>
      cases hp
      exact .inr (by rw [Action.perform, Store.freed_claim (Store.lt_length_of_gate held)])
  | enter mode key offer =>
      right
      simp only [Action.perform] at hp ⊢
      split at hp <;> cases hp <;> simp only [*]
  | leave mode key before result =>
      obtain ⟨t', left, h⟩ := Option.map_eq_some_iff.1 hp
      cases h
      exact .inr (by simp only [Action.perform, left, Option.map_some])
  | endRun slot' key p run outcome => cases outcome <;> cases hp <;> exact .inr rfl
  | findEntry key =>
      cases hp
      exact .inr (by simp only [Action.perform, Store.entryOf?_freed])
  | readEntry id =>
      cases hp
      exact .inr (by simp only [Action.perform, Store.entry_freed])
  | countEntries =>
      cases hp
      exact .inr (by simp only [Action.perform, Store.registered_freed])
  | clearEntries =>
      cases hp
      exact .inr (by simp only [Action.perform, Store.registered_freed]; rfl)
  | newProducer | beginRun | observe | note | pause | yield =>
      cases hp
      exact .inr rfl

end Steps

theorem Machine.step_freed {m m' : Machine} {c d : ClientId} {slot : SlotId}
    (held : (m.store.slot slot).gate = some c) (hs : m.step d = some m') :
    m'.history = ⟨d, .tryGate slot, false⟩ :: m.history ∨
      (m.freed slot).step d = some (m'.freed slot) := by
  obtain ⟨trail, a, next, r, trail', store, hc, hp, rfl⟩ := Machine.step_cases hs
  cases Action.perform_freed held hp with
  | inl finds => exact .inl (congrArg (· :: m.history) finds)
  | inr same => exact .inr (Machine.step_eq_some hc same)

end Wiring.Registry
