import Wiring.Registry.Trail

/-!
The atomic steps of registry calls and what each does to the registry. A step that has to wait is
not performed: `Action.perform` is `none` where a gate is held, where a cell is being filled, and
where a guard would pop a name that is not its own.
-/
namespace Wiring.Registry

abbrev ClientId := Nat

inductive Cell
  | empty
  | filling (client : ClientId)
  | full (inst : Instance)

/-- Storage of one key: whoever registers it holds the gate, and the entry is written once. -/
structure Slot where
  gate : Option ClientId
  entry : Option Entry
  cell : Cell

def Slot.fresh : Slot := ⟨none, none, .empty⟩

/-- What all clients of a registry share. Slots stay where they are when a reset drops them from
the index, since calls under way go on with the slots they found. -/
structure Store where
  slots : List Slot
  index : List (Key × SlotId)
  runs : ProducerId → Nat
  made : Nat
  producers : Nat

namespace Store

def empty : Store := ⟨[], [], fun _ => 0, 0, 0⟩

def slot (s : Store) (id : SlotId) : Slot := s.slots[id]?.getD Slot.fresh

def update (s : Store) (id : SlotId) (f : Slot → Slot) : Store :=
  { s with slots := s.slots.modify id f }

def slotOf? (s : Store) (key : Key) : Option SlotId := s.index.lookup key

def entryOf? (s : Store) (key : Key) : Option Entry :=
  (s.slotOf? key).bind fun id => (s.slot id).entry

def registered (s : Store) : Nat := (s.index.filter fun p => (s.slot p.2).entry.isSome).length

def claim (s : Store) (key : Key) : SlotId × Store :=
  match s.slotOf? key with
  | some id => (id, s)
  | none =>
      (s.slots.length,
        { s with slots := s.slots ++ [.fresh], index := s.index ++ [(key, s.slots.length)] })

end Store

inductive Action
  /-- A call for `key` begins; `offer` is the producer that was handed to it, if one was. -/
  | enter (mode : Mode) (key : Key) (offer : Option ProducerId)
  | leave (mode : Mode) (key : Key) (before : List String) (result : Resolved)
  | claimSlot (key : Key)
  | findEntry (key : Key)
  | countEntries
  | clearEntries
  | readEntry (slot : SlotId)
  | publish (slot : SlotId) (entry : Entry)
  | tryGate (slot : SlotId)
  | takeGate (slot : SlotId)
  | freeGate (slot : SlotId)
  | readCell (slot : SlotId)
  | claimCell (slot : SlotId)
  | fillCell (slot : SlotId) (inst : Instance)
  | freeCell (slot : SlotId)
  | newProducer
  | beginRun (slot : SlotId) (key : Key) (producer : ProducerId)
  | endRun (slot : SlotId) (key : Key) (producer : ProducerId) (run : Nat) (outcome : Outcome)
  | observe (observer : Nat) (notice : Notice)
  | note (note : Note)
  | pause
  | yield

namespace Action

@[reducible] def Response : Action → Type
  | enter .. => Except ResolveError (List String)
  | claimSlot _ => SlotId
  | findEntry _ | readEntry _ => Option Entry
  | countEntries | clearEntries => Nat
  | publish .. => Entry
  | tryGate _ => Bool
  | readCell _ | claimCell _ => Option Instance
  | newProducer => ProducerId
  | beginRun .. => Nat
  | endRun .. => Resolved
  | leave .. | takeGate _ | freeGate _ | fillCell .. | freeCell _ | observe .. | note _ | pause
  | yield => Unit

def isPause : Action → Bool
  | pause => true
  | _ => false

/-- One step of client `me`: what it learns, and its trail and the store afterwards. -/
def perform (me : ClientId) : (a : Action) → Trail → Store → Option (a.Response × Trail × Store)
  | enter mode key _, t, s =>
      match t.refusal? key.name with
      | some e => some (.error e, t, s)
      | none => some (.ok t.task, t.enter key.name mode, s)
  | leave mode key before _, t, s => (t.leave? key.name before mode).map fun t => ((), t, s)
  | claimSlot key, t, s => some ((s.claim key).1, t, (s.claim key).2)
  | findEntry key, t, s => some (s.entryOf? key, t, s)
  | countEntries, t, s => some (s.registered, t, s)
  | clearEntries, t, s => some (s.registered, t, { s with index := [] })
  | readEntry slot, t, s => some ((s.slot slot).entry, t, s)
  | publish slot entry, t, s =>
      match (s.slot slot).entry with
      | some existing => some (existing, t, s)
      | none => some (entry, t, s.update slot fun c => { c with entry := some entry })
  | tryGate slot, t, s =>
      match (s.slot slot).gate with
      | some _ => some (false, t, s)
      | none => some (true, t, s.update slot fun c => { c with gate := some me })
  | takeGate slot, t, s =>
      match (s.slot slot).gate with
      | some _ => none
      | none => some ((), t, s.update slot fun c => { c with gate := some me })
  | freeGate slot, t, s => some ((), t, s.update slot fun c => { c with gate := none })
  | readCell slot, t, s =>
      match (s.slot slot).cell with
      | .full inst => some (some inst, t, s)
      | .empty | .filling _ => some (none, t, s)
  | claimCell slot, t, s =>
      match (s.slot slot).cell with
      | .full inst => some (some inst, t, s)
      | .filling _ => none
      | .empty => some (none, t, s.update slot fun c => { c with cell := .filling me })
  | fillCell slot inst, t, s => some ((), t, s.update slot fun c => { c with cell := .full inst })
  | freeCell slot, t, s => some ((), t, s.update slot fun c => { c with cell := .empty })
  | newProducer, t, s => some (.given s.producers, t, { s with producers := s.producers + 1 })
  | beginRun _ _ producer, t, s =>
      let run := s.runs producer + 1
      some (run, t, { s with runs := fun q => if q = producer then run else s.runs q })
  | endRun _ _ _ _ (.error e), t, s => some (.error e, t, s)
  | endRun _ key producer run (.ok payload), t, s =>
      some (.ok ⟨s.made + 1, key, producer, run, payload⟩, t, { s with made := s.made + 1 })
  | observe .., t, s | note _, t, s | pause, t, s | yield, t, s => some ((), t, s)

end Action

end Wiring.Registry
