import Wiring.Proofs.Registry.Reach
import Mathlib.Data.List.Pairwise

/-!
What a history tells. The resolutions of a client, the runs of a key that are open, the entries
that were published, what observers were told and who holds a gate can all be read off the steps
that were taken. In a run without reset the reading agrees with the store and with the calls.
-/
namespace Wiring.Registry

namespace History

/-- The resolutions of client `me` that are under way, the innermost first, each with the producer
that was handed to it. -/
def active (me : ClientId) : History → List (Key × Option ProducerId)
  | [] => []
  | ⟨c, .enter _ key offer, .ok _⟩ :: h =>
      if c = me then (key, offer) :: active me h else active me h
  | ⟨c, .leave .., _⟩ :: h => if c = me then (active me h).tail else active me h
  | _ :: h => active me h

def openRuns (key : Key) : History → List (ClientId × ProducerId × Nat)
  | [] => []
  | ⟨c, .beginRun _ k p, run⟩ :: h =>
      if k = key then (c, p, run) :: openRuns key h else openRuns key h
  | ⟨c, .endRun _ k p run _, _⟩ :: h =>
      if k = key then (openRuns key h).erase (c, p, run) else openRuns key h
  | _ :: h => openRuns key h

def published (key : Key) : History → List Entry
  | [] => []
  | ⟨_, .publish _ e, _⟩ :: h => if e.key = key then e :: published key h else published key h
  | _ :: h => published key h

def told (i : Nat) (key : Key) : History → List Policy
  | [] => []
  | ⟨_, .observe j (.registered k policy), _⟩ :: h =>
      if j = i ∧ k = key then policy :: told i key h else told i key h
  | _ :: h => told i key h

/-- Who has taken the gate of a slot and not let it go. -/
def holder (slot : SlotId) : History → Option ClientId
  | [] => none
  | ⟨c, .tryGate id, true⟩ :: h | ⟨c, .takeGate id, _⟩ :: h =>
      if id = slot then some c else holder slot h
  | ⟨_, .freeGate id, _⟩ :: h => if id = slot then none else holder slot h
  | _ :: h => holder slot h

end History

/-- What a call knows of the producer that it runs or has run. -/
def Call.Fits (call : Call) : Prop :=
  match call.stage with
  | .trying _ p _ => call.offer = some p
  | .tried _ r => ∀ inst, r = .ok inst → call.offer = some inst.producer
  | .filling e => e.resolution.isLazy
  | .making e p _ => e.resolution.producer? = some p
  | .made e _ => e.resolution.producer?.isSome
  | _ => True

theorem Stage.Next.fits {terms : Terms} {call : Call} {a : Action} {r : a.Response} {s : Stage}
    (n : call.stage.Next terms call.key call.offer a r s) (h : call.Fits) :
    ({ call with stage := s } : Call).Fits := by
  obtain ⟨key, mode, offer, stage⟩ := call
  cases n with
  | attempt h' => exact h'
  | tried hm =>
      intro inst hr
      obtain ⟨serial, hm⟩ := hm
      rename_i outcome _
      cases outcome with
      | ok payload => cases hr.symm.trans hm; exact h
      | error e => cases hr.symm.trans hm
  | claimCell h' => exact h'
  | makeFresh _ hp | makeShared _ hp => exact hp
  | made => exact Option.isSome_of_eq_some h
  | observe => exact h
  | _ => trivial

namespace Store

variable {s : Store} {id j : SlotId} {f : Slot → Slot}

theorem view_update {α : Type} (view : Slot → α) (h : ∀ σ, view (f σ) = view σ) :
    view ((s.update id f).slot j) = view (s.slot j) := by
  by_cases hj : j = id
  · subst hj
    by_cases hl : j < s.slots.length
    · rw [slot_update s hl, h]
    · simp [slot, update, List.getElem?_eq_none (Nat.le_of_not_lt hl)]
  · rw [slot_update_of_ne s hj]

theorem slot_of_length_le (s : Store) (h : s.slots.length ≤ id) : s.slot id = .fresh := by
  simp [slot, List.getElem?_eq_none h]

theorem claim_of_some {key : Key} (h : s.slotOf? key = some id) : s.claim key = (id, s) := by
  simp [claim, h]

theorem claim_of_none {key : Key} (h : s.slotOf? key = none) :
    s.claim key = (s.slots.length,
      { s with slots := s.slots ++ [.fresh], index := s.index ++ [(key, s.slots.length)] }) := by
  simp [claim, h]

theorem slot_claim (key : Key) : (s.claim key).2.slot j = s.slot j := by
  cases h : s.slotOf? key with
  | some _ => rw [claim_of_some h]
  | none =>
      rw [claim_of_none h]
      exact slot_append s j _

theorem slotOf?_claim {key k : Key} (hk : s.slotOf? k = some id) :
    (s.claim key).2.slotOf? k = some id := by
  cases h : s.slotOf? key with
  | some _ => rwa [claim_of_some h]
  | none =>
      rw [claim_of_none h]
      simp only [slotOf?] at *
      rw [List.lookup_append, hk]
      rfl

theorem slotOf?_claim_new {key : Key} (hs : s.slots.length ≤ id)
    (hl : id < (s.claim key).2.slots.length) : (s.claim key).2.slotOf? key = some id := by
  cases h : s.slotOf? key with
  | some _ =>
      rw [claim_of_some h] at hl
      exact absurd hl (Nat.not_lt.2 hs)
  | none =>
      rw [claim_of_none h] at hl ⊢
      simp only [List.length_append, List.length_cons, List.length_nil] at hl
      obtain rfl : id = s.slots.length := Nat.le_antisymm (Nat.le_of_lt_succ hl) hs
      simp only [slotOf?] at *
      rw [List.lookup_append, h]
      simp

theorem slotOf?_claim_found {key : Key} :
    (s.claim key).2.slotOf? key = some (s.claim key).1 := by
  cases hs : s.slotOf? key with
  | some id => rw [claim_of_some hs, hs]
  | none =>
      rw [claim_of_none hs]
      simp only [slotOf?] at hs ⊢
      simp [List.lookup_append, hs]

theorem slotOf?_claim_cases {key k : Key} (hk : (s.claim key).2.slotOf? k = some id) :
    s.slotOf? k = some id ∨ k = key ∧ s.slotOf? key = none ∧ id = s.slots.length := by
  cases hs : s.slotOf? key with
  | some _ =>
      rw [claim_of_some hs] at hk
      exact .inl hk
  | none =>
      rw [claim_of_none hs] at hk
      simp only [slotOf?, List.lookup_append, Option.or_eq_some_iff] at hk
      obtain there | ⟨-, here⟩ := hk
      · exact .inl there
      · rw [List.lookup_cons] at here
        split at here
        · next same =>
            cases here
            exact .inr ⟨eq_of_beq same, rfl, rfl⟩
        · cases here

end Store

def Action.writes? (c : ClientId) : Action → Option (SlotId × (Slot → Slot))
  | .publish slot e => some (slot, fun σ => { σ with entry := some e })
  | .tryGate slot | .takeGate slot => some (slot, fun σ => { σ with gate := some c })
  | .freeGate slot => some (slot, fun σ => { σ with gate := none })
  | .claimCell slot => some (slot, fun σ => { σ with cell := .filling c })
  | .fillCell slot inst => some (slot, fun σ => { σ with cell := .full inst })
  | .freeCell slot => some (slot, fun σ => { σ with cell := .empty })
  | _ => none

/-- What a step does to slots and index, runs and counts apart. -/
inductive Action.Alters (c : ClientId) (s : Store) : Action → Store → Prop
  | nothing {a : Action} {s' : Store} (slots : s'.slots = s.slots)
      (index : a ≠ .clearEntries → s'.index = s.index) : Alters c s a s'
  | slot {a : Action} {id : SlotId} {f : Slot → Slot} (writes : a.writes? c = some (id, f)) :
      Alters c s a (s.update id f)
  | index {key : Key} : Alters c s (.claimSlot key) (s.claim key).2

/-- What a step does to the counts of runs, of instances and of producers. -/
def Action.Tallies (s s' : Store) : Action → Prop
  | .beginRun _ _ p =>
      s'.runs = (fun q => if q = p then s.runs p + 1 else s.runs q) ∧ s'.made = s.made ∧
        s'.producers = s.producers
  | .endRun _ _ _ _ (.ok _) =>
      s'.runs = s.runs ∧ s'.made = s.made + 1 ∧ s'.producers = s.producers
  | .newProducer => s'.runs = s.runs ∧ s'.made = s.made ∧ s'.producers = s.producers + 1
  | _ => s'.runs = s.runs ∧ s'.made = s.made ∧ s'.producers = s.producers

section Effect

variable {c : ClientId} {t t' : Trail} {s s' : Store} {a : Action} {r : a.Response}

theorem Action.alters (hp : a.perform c t s = some (r, t', s')) : a.Alters c s s' := by
  cases a with
  | claimSlot key =>
      simp only [Action.perform, Option.some.injEq, Prod.mk.injEq] at hp
      obtain ⟨-, -, rfl⟩ := hp
      exact .index
  | publish | tryGate | takeGate | claimCell =>
      simp only [Action.perform] at hp
      split at hp <;> cases hp <;> first | exact .nothing rfl fun _ => rfl | exact .slot rfl
  | enter | readCell =>
      simp only [Action.perform] at hp
      split at hp <;> cases hp <;> exact .nothing rfl fun _ => rfl
  | freeGate | fillCell | freeCell =>
      cases hp
      exact .slot rfl
  | leave =>
      obtain ⟨_, -, h⟩ := Option.map_eq_some_iff.1 hp
      cases h
      exact .nothing rfl fun _ => rfl
  | clearEntries =>
      cases hp
      exact .nothing rfl fun calm => absurd rfl calm
  | endRun _ _ _ _ outcome => cases outcome <;> cases hp <;> exact .nothing rfl fun _ => rfl
  | _ => cases hp; exact .nothing rfl fun _ => rfl

theorem Action.tallies (hp : a.perform c t s = some (r, t', s')) : a.Tallies s s' := by
  cases a with
  | claimSlot key =>
      cases hp
      unfold Store.claim
      split <;> exact ⟨rfl, rfl, rfl⟩
  | enter | publish | tryGate | takeGate | readCell | claimCell =>
      simp only [Action.perform] at hp
      split at hp <;> cases hp <;> exact ⟨rfl, rfl, rfl⟩
  | leave =>
      obtain ⟨_, -, h⟩ := Option.map_eq_some_iff.1 hp
      cases h
      exact ⟨rfl, rfl, rfl⟩
  | endRun _ _ _ _ outcome => cases outcome <;> cases hp <;> exact ⟨rfl, rfl, rfl⟩
  | _ =>
      cases hp
      exact ⟨rfl, rfl, rfl⟩

theorem Action.runs_le (hp : a.perform c t s = some (r, t', s')) (p : ProducerId) :
    s.runs p ≤ s'.runs p := by
  have tallies := Action.tallies hp
  cases a with
  | beginRun _ _ q =>
      rw [tallies.1]
      dsimp only
      split
      · next he => rw [he]; exact Nat.le_succ _
      · exact Nat.le_refl _
  | endRun _ _ _ _ outcome => cases outcome <;> exact Nat.le_of_eq (by rw [tallies.1])
  | _ => exact Nat.le_of_eq (by rw [tallies.1])

/-- A part of slots that a step does not write is as it was. -/
theorem Action.perform_view {α : Type} (view : Slot → α) (hp : a.perform c t s = some (r, t', s'))
    (h : ∀ slot f, a.writes? c = some (slot, f) → ∀ σ, view (f σ) = view σ) (id : SlotId) :
    view (s'.slot id) = view (s.slot id) := by
  cases Action.alters hp with
  | nothing slots => simp only [Store.slot, slots]
  | slot writes => exact Store.view_update view (h _ _ writes)
  | index => rw [Store.slot_claim]

theorem Action.perform_entry (hp : a.perform c t s = some (r, t', s'))
    (h : ∀ slot e, a ≠ .publish slot e) (id : SlotId) :
    (s'.slot id).entry = (s.slot id).entry := by
  apply Action.perform_view Slot.entry hp
  intro slot f writes σ
  cases a with
  | publish slot e => exact absurd rfl (h slot e)
  | _ => cases writes <;> rfl

theorem Action.perform_gate (hp : a.perform c t s = some (r, t', s'))
    (h : ∀ slot, a ≠ .tryGate slot ∧ a ≠ .takeGate slot ∧ a ≠ .freeGate slot) (id : SlotId) :
    (s'.slot id).gate = (s.slot id).gate := by
  apply Action.perform_view Slot.gate hp
  intro slot f writes σ
  cases a with
  | tryGate slot | takeGate slot | freeGate slot => simp at h
  | _ => cases writes <;> rfl

/-- Without a reset a key keeps its slot, and a new slot has a key. -/
theorem Action.perform_slotOf? (hp : a.perform c t s = some (r, t', s'))
    (calm : a ≠ .clearEntries) :
    (∀ key id, s.slotOf? key = some id → s'.slotOf? key = some id) ∧
      ∀ id, s.slots.length ≤ id → id < s'.slots.length → ∃ key, s'.slotOf? key = some id := by
  cases Action.alters hp with
  | nothing slots index =>
      refine ⟨?_, ?_⟩
      · intro key id h
        simpa only [Store.slotOf?, index calm] using h
      · intro id h h'
        rw [slots] at h'
        exact absurd h' (Nat.not_lt.2 h)
  | slot =>
      refine ⟨?_, ?_⟩
      · intro key id h
        rwa [Store.slotOf?_update]
      · intro id h h'
        rw [Store.length_update] at h'
        exact absurd h' (Nat.not_lt.2 h)
  | @index key =>
      refine ⟨?_, ?_⟩
      · intro k id h
        exact Store.slotOf?_claim h
      · intro id h h'
        exact ⟨key, Store.slotOf?_claim_new h h'⟩

/-- A slot that is found under a key was found there before, or it has just been made. -/
theorem Action.slotOf?_cases (hp : a.perform c t s = some (r, t', s')) {key : Key} {id : SlotId}
    (hk : s'.slotOf? key = some id) :
    a ≠ .clearEntries ∧ (s.slotOf? key = some id ∨
      s.slotOf? key = none ∧ id = s.slots.length ∧ a = .claimSlot key) := by
  cases Action.alters hp with
  | nothing slots index =>
      have quiet : a ≠ .clearEntries := by
        rintro rfl
        cases hp
        cases hk
      exact ⟨quiet, .inl (by simpa only [Store.slotOf?, index quiet] using hk)⟩
  | slot writes =>
      refine ⟨?_, .inl hk⟩
      rintro rfl
      cases writes
  | @index k =>
      refine ⟨by simp, ?_⟩
      obtain there | ⟨rfl, new, rfl⟩ := Store.slotOf?_claim_cases hk
      · exact .inl there
      · exact .inr ⟨new, rfl, rfl⟩

end Effect

section Readings

variable {terms : Terms} {key : Key} {offer : Option ProducerId} {stage stage' : Stage} {a : Action}
  {r : a.Response} {c : ClientId} {h : History}

theorem Action.IsAside.readings (ha : a.IsAside) :
    (∀ me, History.active me (⟨c, a, r⟩ :: h) = h.active me) ∧
      (∀ k, History.openRuns k (⟨c, a, r⟩ :: h) = h.openRuns k) ∧
        (∀ i k, History.told i k (⟨c, a, r⟩ :: h) = h.told i k) ∧
          ∀ id, History.holder id (⟨c, a, r⟩ :: h) = h.holder id := by
  cases a with
  | observe i notice =>
      cases notice with
      | registered => cases ha
      | _ => exact ⟨fun _ => rfl, fun _ => rfl, fun _ _ => rfl, fun _ => rfl⟩
  | newProducer | findEntry | countEntries | clearEntries | readCell | note | pause | yield =>
      exact ⟨fun _ => rfl, fun _ => rfl, fun _ _ => rfl, fun _ => rfl⟩
  | _ => cases ha

theorem Stage.Next.active (n : stage.Next terms key offer a r stage') (me : ClientId) :
    History.active me (⟨c, a, r⟩ :: h) = h.active me := by
  cases n <;> rfl

/-- What a step of a call for `key`, from `stage` to `stage'`, does to the runs of `k` that were
open. -/
inductive Stage.Opens (c : ClientId) (key k : Key) (stage stage' : Stage)
    (before after : List (ClientId × ProducerId × Nat)) : Prop
  | still (run : stage'.run? = stage.run?) (same : after = before)
  | begins {p : ProducerId} {run : Nat} (idle : stage.run? = none)
      (runs : stage'.run? = some (p, run))
      (opened : after = if key = k then (c, p, run) :: before else before)
  | ends {p : ProducerId} {run : Nat} (runs : stage.run? = some (p, run))
      (idle : stage'.run? = none)
      (closed : after = if key = k then before.erase (c, p, run) else before)

theorem Stage.Next.opens (n : stage.Next terms key offer a r stage') (k : Key) :
    stage.Opens c key k stage' (h.openRuns k) (History.openRuns k (⟨c, a, r⟩ :: h)) := by
  cases n with
  | attempt | makeFresh | makeShared => exact .begins rfl rfl rfl
  | tried | made => exact .ends rfl rfl rfl
  | _ => exact .still rfl rfl

end Readings

/-- `runs` are the runs of `key` that calls are in the middle of, no two of one client. -/
structure Running (calls : ClientId → List Call) (key : Key)
    (runs : List (ClientId × ProducerId × Nat)) : Prop where
  iff : ∀ c p run, (c, p, run) ∈ runs ↔
    ∃ call ∈ calls c, call.key = key ∧ call.stage.run? = some (p, run)
  apart : runs.Pairwise fun x y => x.1 ≠ y.1

namespace Running

variable {calls : ClientId → List Call} {c : ClientId} {call : Call} {rest calls' : List Call}
  {key : Key} {stage : Stage} {p : ProducerId} {run : Nat}
  {runs : List (ClientId × ProducerId × Nat)}

theorem same (old : Running calls key runs)
    (mine : ∀ p run, (∃ call ∈ calls c, call.key = key ∧ call.stage.run? = some (p, run)) ↔
      ∃ call ∈ calls', call.key = key ∧ call.stage.run? = some (p, run)) :
    Running (Function.update calls c calls') key runs := by
  refine ⟨fun c' p run => ?_, old.apart⟩
  by_cases hc : c' = c
  · subst hc
    rw [Function.update_self, old.iff, mine]
  · rw [Function.update_of_ne hc, old.iff]

theorem begins (old : Running calls call.key runs) (hc : calls c = call :: rest)
    (free : ∀ x ∈ rest, x.key ≠ call.key) (idle : call.stage.run? = none)
    (now : stage.run? = some (p, run)) :
    Running (Function.update calls c ({ call with stage } :: rest)) call.key
      ((c, p, run) :: runs) := by
  refine ⟨fun c' p' run' => ?_, List.pairwise_cons.2 ⟨fun x hx he => ?_, old.apart⟩⟩
  · by_cases hcc : c' = c
    · subst hcc
      rw [Function.update_self, List.mem_cons, old.iff, hc]
      simp [idle, now, eq_comm]
    · rw [Function.update_of_ne hcc, ← old.iff]
      simp [hcc]
  · obtain ⟨c', p', run'⟩ := x
    obtain rfl : c = c' := he
    obtain ⟨x, hx, hxk, hxr⟩ := (old.iff c p' run').1 hx
    rw [hc] at hx
    cases hx with
    | head => cases idle.symm.trans hxr
    | tail _ hx => exact free x hx hxk

theorem ends (old : Running calls call.key runs) (hc : calls c = call :: rest)
    (free : ∀ x ∈ rest, x.key ≠ call.key) (was : call.stage.run? = some (p, run))
    (idle : stage.run? = none) :
    Running (Function.update calls c ({ call with stage } :: rest)) call.key
      (runs.erase (c, p, run)) := by
  have nodup : runs.Nodup := old.apart.imp fun hne he => hne (congrArg _ he)
  refine ⟨fun c' p' run' => ?_, old.apart.sublist List.erase_sublist⟩
  by_cases hcc : c' = c
  · subst hcc
    have gone : ¬∃ x ∈ rest, x.key = call.key ∧ x.stage.run? = some (p', run') :=
      fun ⟨x, hx, hxk, _⟩ => free x hx hxk
    rw [Function.update_self, nodup.mem_erase_iff, old.iff, hc]
    simp only [List.mem_cons, exists_eq_or_imp, gone, or_false, was, idle]
    simp only [Option.some.injEq, Prod.mk.injEq, ne_eq, not_and, true_and, reduceCtorEq, and_false,
      iff_false]
    intro hne hp hr
    exact hne hp.symm hr.symm
  · rw [Function.update_of_ne hcc, ← old.iff]
    exact List.mem_erase_of_ne (by simp [hcc])

end Running

/-- Where a call of client `c'` comes from after a step of `c`. -/
inductive Origin (terms : Terms) (calls : ClientId → List Call) (c : ClientId) (a : Action)
    (r : a.Response) (c' : ClientId) : Call → Prop
  | old {x : Call} (there : x ∈ calls c') : Origin terms calls c a r c' x
  | entered {x : Call} (new : x.stage = .entered) : Origin terms calls c a r c' x
  | stepped {call : Call} {stage : Stage} (mine : c' = c) (there : call ∈ calls c)
      (next : call.stage.Next terms call.key call.offer a r stage) :
      Origin terms calls c a r c' { call with stage }

/-- In a run without reset every slot is the slot of its key, the calls know the producers that
they run, and what the history tells is so. -/
structure Recorded (keys : List Key) (calls : ClientId → List Call) (s : Store) (h : History) :
    Prop where
  indexed : ∀ id key, keys[id]? = some key → s.slotOf? key = some id
  fits : ∀ c, ∀ call ∈ calls c, call.Fits
  active : ∀ c, h.active c = (calls c).map fun call => (call.key, call.offer)
  published : ∀ key, h.published key = (s.entryOf? key).toList
  holder : ∀ id, h.holder id = (s.slot id).gate
  openRuns : ∀ key c p run, (c, p, run) ∈ h.openRuns key ↔
    ∃ call ∈ calls c, call.key = key ∧ call.stage.run? = some (p, run)
  apart : ∀ key, (h.openRuns key).Pairwise fun x y => x.1 ≠ y.1

/-- What becomes of a call of client `c'` in a step of `c`, after which `calls'` are under way. -/
inductive Fate (terms : Terms) (calls' : ClientId → List Call) (c : ClientId) (a : Action)
    (r : a.Response) (c' : ClientId) (x : Call) : Prop
  | stays (there : x ∈ calls' c')
  | steps {stage : Stage} (mine : c' = c) (next : x.stage.Next terms x.key x.offer a r stage)
      (there : { x with stage } ∈ calls' c')
  | ends {result : Resolved} (mine : c' = c) (comes_back : x.stage.Ends x.key result)

namespace Taken

variable {terms : Terms} {keys : List Key} {calls : ClientId → List Call} {s : Store}
  {c : ClientId} {a : Action} {r : a.Response} {calls' : List Call} {keys' : List Key} {s' : Store}
  {h : History}

theorem key_of_lt (taken : Taken terms keys calls s c a r calls' keys' s') {id : SlotId} {key : Key}
    (hl : id < s.slots.length) (hk : keys'[id]? = some key) : keys[id]? = some key := by
  obtain ⟨more, rfl⟩ := taken.grown
  rwa [List.getElem?_append_left (taken.before.length ▸ hl)] at hk

theorem indexed (taken : Taken terms keys calls s c a r calls' keys' s')
    (calm : a ≠ .clearEntries) (old : ∀ id key, keys[id]? = some key → s.slotOf? key = some id)
    (id : SlotId) (key : Key) (hk : keys'[id]? = some key) : s'.slotOf? key = some id := by
  obtain ⟨kept, new⟩ := Action.perform_slotOf? taken.performs calm
  by_cases hl : id < s.slots.length
  · exact kept key id (old id key (taken.key_of_lt hl hk))
  · obtain ⟨k, hs⟩ := new id (Nat.le_of_not_lt hl) (taken.after.lt_length hk)
    cases hk.symm.trans (taken.after.index k id hs)
    exact hs

/-- A call that publishes was handed the producer of the entry, or has made its instance. -/
theorem publisher {slot : SlotId} {e : Entry} {r : Entry}
    (taken : Taken terms keys calls s c (.publish slot e) r calls' keys' s') :
    ∃ mode offer stage rest, calls c = ⟨e.key, mode, offer, stage⟩ :: rest ∧
      calls' = ⟨e.key, mode, offer, .announcing e 0⟩ :: rest ∧ e.slot = slot ∧
        stage.vacancy? = some slot ∧
          (stage = .vacant slot ∧ e.resolution.instance? = none ∧ e.resolution.producer? = offer ∨
            ∃ inst, stage = .tried slot (.ok inst) ∧ e.resolution.instance? = some inst) := by
  have move := taken.move
  generalize calls c = cs at move
  cases move with
  | @own call rest _ _ _ n =>
      obtain ⟨key, mode, offer, stage⟩ := call
      cases n with
      | publish suits hi hp =>
          obtain rfl := suits.key
          exact ⟨mode, offer, _, rest, rfl, rfl, suits.slot, rfl, .inl ⟨rfl, hi, hp⟩⟩
      | publishMade suits hi =>
          obtain rfl := suits.key
          exact ⟨mode, offer, _, rest, rfl, rfl, suits.slot, rfl, .inr ⟨_, rfl, hi⟩⟩
  | aside _ ha => cases ha

theorem publish {slot : SlotId} {e : Entry} {r : Entry}
    (taken : Taken terms keys calls s c (.publish slot e) r calls' keys' s') :
    (s.slot slot).entry = none ∧ keys[slot]? = some e.key ∧
      s' = s.update slot fun σ => { σ with entry := some e } := by
  have learnt : (s.slot slot).entry = none ∧ keys[slot]? = some e.key := by
    obtain ⟨mode, offer, stage, rest, hcs, -, -, vacant, -⟩ := taken.publisher
    have top : (⟨e.key, mode, offer, stage⟩ : Call) ∈ calls c := by simp [hcs]
    have hs := Stage.slot?_of_gate? (Stage.gate?_of_vacancy? vacant)
    exact ⟨taken.before.vacant c _ top slot vacant, taken.before.slot c _ top slot hs⟩
  refine ⟨learnt.1, learnt.2, ?_⟩
  have hp := taken.performs
  simp only [Action.perform, learnt.1, Option.some.injEq, Prod.mk.injEq] at hp
  exact hp.2.2.symm

theorem entryOf?_of_ne (taken : Taken terms keys calls s c a r calls' keys' s')
    (calm : a ≠ .clearEntries) (old : ∀ id key, keys[id]? = some key → s.slotOf? key = some id)
    (key : Key) (same : ∀ id, keys[id]? = some key → (s'.slot id).entry = (s.slot id).entry)
    (fresh : ∀ id, s.slots.length ≤ id → (s'.slot id).entry = none) :
    s'.entryOf? key = s.entryOf? key := by
  simp only [Store.entryOf?]
  cases hs : s.slotOf? key with
  | some id =>
      rw [(Action.perform_slotOf? taken.performs calm).1 key id hs]
      exact same id (taken.before.index key id hs)
  | none =>
      cases hs' : s'.slotOf? key with
      | none => rfl
      | some id =>
          by_cases hl : id < s.slots.length
          · have hk := old id key (taken.key_of_lt hl (taken.after.index key id hs'))
            cases hs.symm.trans hk
          · exact fresh id (Nat.le_of_not_lt hl)

theorem entryOf?_eq (taken : Taken terms keys calls s c a r calls' keys' s')
    (calm : a ≠ .clearEntries) (old : ∀ id key, keys[id]? = some key → s.slotOf? key = some id)
    (hp : ∀ slot e, a ≠ .publish slot e) (key : Key) : s'.entryOf? key = s.entryOf? key := by
  have same := Action.perform_entry taken.performs hp
  apply taken.entryOf?_of_ne calm old key (fun id _ => same id)
  intro id hl
  rw [same, s.slot_of_length_le hl]
  rfl

theorem entryOf?_publish {slot : SlotId} {e : Entry} {r : Entry}
    (taken : Taken terms keys calls s c (.publish slot e) r calls' keys' s')
    (old : ∀ id key, keys[id]? = some key → s.slotOf? key = some id) :
    s.entryOf? e.key = none ∧ s'.entryOf? e.key = some e ∧
      ∀ key, key ≠ e.key → s'.entryOf? key = s.entryOf? key := by
  obtain ⟨vacant, hk, hs'⟩ := taken.publish
  have hl := taken.before.lt_length hk
  have hs := old slot e.key hk
  refine ⟨?_, ?_, fun key hne => ?_⟩
  · simp [Store.entryOf?, hs, vacant]
  · subst hs'
    simp [Store.entryOf?, hs, s.slot_update hl]
  · refine taken.entryOf?_of_ne (by simp) old key (fun id hk' => ?_) fun id hl' => ?_
    · have hid : id ≠ slot := by
        intro he
        subst he
        exact hne (Option.some.inj (hk'.symm.trans hk))
      rw [hs', s.slot_update_of_ne hid]
    · have hid : id ≠ slot := fun he => Nat.not_lt.2 hl' (he ▸ hl)
      rw [hs', s.slot_update_of_ne hid, s.slot_of_length_le hl']
      rfl

/-- The entry of a key is changed by publishing one for it alone. -/
theorem entryOf?_same (taken : Taken terms keys calls s c a r calls' keys' s')
    (calm : a ≠ .clearEntries) (old : ∀ id key, keys[id]? = some key → s.slotOf? key = some id)
    {key : Key} (hp : ∀ slot e, a = .publish slot e → e.key ≠ key) :
    s'.entryOf? key = s.entryOf? key := by
  cases a with
  | publish slot e => exact (taken.entryOf?_publish old).2.2 key (hp slot e rfl).symm
  | _ => exact taken.entryOf?_eq calm old (by simp) key

theorem entryOf?_kept (taken : Taken terms keys calls s c a r calls' keys' s')
    (calm : a ≠ .clearEntries) (old : ∀ id key, keys[id]? = some key → s.slotOf? key = some id)
    {key : Key} {e : Entry} (he : s.entryOf? key = some e) : s'.entryOf? key = some e := by
  rw [taken.entryOf?_same calm old, he]
  intro slot e' he he'
  subst he
  subst he'
  cases (taken.entryOf?_publish old).1.symm.trans he

theorem published (taken : Taken terms keys calls s c a r calls' keys' s')
    (calm : a ≠ .clearEntries) (old : ∀ id key, keys[id]? = some key → s.slotOf? key = some id)
    (hh : ∀ key, h.published key = (s.entryOf? key).toList) (key : Key) :
    History.published key (⟨c, a, r⟩ :: h) = (s'.entryOf? key).toList := by
  cases a with
  | publish slot e =>
      obtain ⟨hn, he, others⟩ := taken.entryOf?_publish old
      by_cases hk : e.key = key
      · subst hk
        simp [History.published, hh, hn, he]
      · simp [History.published, hk, hh, others key (Ne.symm hk)]
  | _ =>
      rw [taken.entryOf?_eq calm old (by simp)]
      exact hh key

theorem lt_of_gate (taken : Taken terms keys calls s c a r calls' keys' s') {slot : SlotId}
    (ha : a = .tryGate slot ∨ a = .takeGate slot ∨ a = .freeGate slot) :
    slot < s.slots.length := by
  have move := taken.move
  generalize hcs : calls c = cs at move
  cases move with
  | @own call rest _ _ _ n =>
      obtain ⟨key, mode, offer, stage⟩ := call
      have top : (⟨key, mode, offer, stage⟩ : Call) ∈ calls c := by simp [hcs]
      obtain rfl | rfl | rfl := ha <;> cases n <;>
        exact taken.before.lt_length (taken.before.slot c _ top _ rfl)
  | aside _ h => obtain rfl | rfl | rfl := ha <;> cases h
  | _ => simp at ha

theorem holder (taken : Taken terms keys calls s c a r calls' keys' s')
    (hh : ∀ id, h.holder id = (s.slot id).gate) (id : SlotId) :
    History.holder id (⟨c, a, r⟩ :: h) = (s'.slot id).gate := by
  have hp := taken.performs
  generalize trailOf calls' = t' at hp
  have set {slot : SlotId} (hl : slot < s.slots.length) (g : Option ClientId) :
      (if slot = id then g else h.holder id) =
        ((s.update slot fun σ => { σ with gate := g }).slot id).gate := by
    split
    · next he => rw [← he, s.slot_update hl]
    · next hne => rw [s.slot_update_of_ne (Ne.symm hne), hh]
  cases a with
  | tryGate slot =>
      have hl := taken.lt_of_gate (.inl rfl)
      simp only [Action.perform] at hp
      split at hp
      · cases hp
        exact hh id
      · cases hp
        exact set hl (some c)
  | takeGate slot =>
      have hl := taken.lt_of_gate (.inr (.inl rfl))
      simp only [Action.perform] at hp
      split at hp
      · cases hp
      · cases hp
        exact set hl (some c)
  | freeGate slot =>
      have hl := taken.lt_of_gate (.inr (.inr rfl))
      cases hp
      exact set hl none
  | _ => rw [Action.perform_gate hp (by simp)]; exact hh id

theorem origin (taken : Taken terms keys calls s c a r calls' keys' s') {c' : ClientId}
    {x : Call} (hx : x ∈ Function.update calls c calls' c') : Origin terms calls c a r c' x := by
  have move := taken.move
  by_cases hc : c' = c
  · subst hc
    rw [Function.update_self] at hx
    generalize hcs : calls c' = cs at move
    cases move with
    | own n =>
        cases hx with
        | head => exact .stepped rfl (hcs ▸ List.mem_cons_self) n
        | tail _ hx => exact .old (hcs ▸ List.mem_cons_of_mem _ hx)
    | enter =>
        cases hx with
        | head => exact .entered rfl
        | tail _ hx => exact .old (hcs ▸ hx)
    | leave => exact .old (hcs ▸ List.mem_cons_of_mem _ hx)
    | refuse | aside => exact .old (hcs ▸ hx)
  · rw [Function.update_of_ne hc] at hx
    exact .old hx

theorem fate (taken : Taken terms keys calls s c a r calls' keys' s') {c' : ClientId} {x : Call}
    (hx : x ∈ calls c') : Fate terms (Function.update calls c calls') c a r c' x := by
  have move := taken.move
  by_cases hc : c' = c
  · subst hc
    have there {y : Call} (hy : y ∈ calls') : y ∈ Function.update calls c' calls' c' := by
      rwa [Function.update_self]
    generalize calls c' = cs at move hx
    cases move with
    | own next =>
        cases hx with
        | head => exact .steps rfl next (there List.mem_cons_self)
        | tail _ hx => exact .stays (there (List.mem_cons_of_mem _ hx))
    | enter => exact .stays (there (List.mem_cons_of_mem _ hx))
    | refuse | aside => exact .stays (there hx)
    | leave ends =>
        cases hx with
        | head => exact .ends rfl ends
        | tail _ hx => exact .stays (there hx)
  · exact .stays (by rwa [Function.update_of_ne hc])

theorem fits (taken : Taken terms keys calls s c a r calls' keys' s')
    (old : ∀ c, ∀ call ∈ calls c, call.Fits) (c' : ClientId) (x : Call)
    (hx : x ∈ Function.update calls c calls' c') : x.Fits := by
  cases taken.origin hx with
  | old there => exact old c' x there
  | entered new => simp [Call.Fits, new]
  | stepped _ there next => exact next.fits (old c _ there)

theorem active (taken : Taken terms keys calls s c a r calls' keys' s')
    (hh : ∀ me, h.active me = (calls me).map fun call => (call.key, call.offer)) (me : ClientId) :
    History.active me (⟨c, a, r⟩ :: h) =
      (Function.update calls c calls' me).map fun call => (call.key, call.offer) := by
  have move := taken.move
  by_cases hc : me = c
  · subst hc
    rw [Function.update_self]
    have now := hh me
    generalize hcs : calls me = cs at move now
    cases move with
    | own n => rw [n.active, now]; rfl
    | enter => simp [History.active, now]
    | leave => simp [History.active, now]
    | refuse => exact now
    | aside _ ha => rw [ha.readings.1, now]
  · rw [Function.update_of_ne hc, ← hh]
    generalize calls c = cs at move
    cases move with
    | own n => exact n.active me
    | enter | leave => simp [History.active, Ne.symm hc]
    | refuse => rfl
    | aside _ ha => exact ha.readings.1 me

theorem openRuns (taken : Taken terms keys calls s c a r calls' keys' s') {key : Key}
    (old : Running calls key (h.openRuns key)) :
    Running (Function.update calls c calls') key (History.openRuns key (⟨c, a, r⟩ :: h)) := by
  have move := taken.move
  have nested := (taken.before.nested c).pairwise
  generalize hcs : calls c = cs at move nested
  cases move with
  | @own call rest _ _ stage n =>
      have free : ∀ x ∈ rest, x.key ≠ call.key := fun x hx he =>
        (List.pairwise_cons.1 nested).1 x hx (congrArg Key.name he.symm)
      have elsewhere (hk : call.key ≠ key) :
          Running (Function.update calls c ({ call with stage } :: rest)) key (h.openRuns key) :=
        old.same fun p run => by simp [hcs, hk]
      cases n.opens key (h := h) (c := c) with
      | still hr eq =>
          rw [eq]
          exact old.same fun p run => by simp [hcs, hr]
      | begins idle runs eq =>
          rw [eq]
          split
          · next hk =>
              subst hk
              exact old.begins hcs free idle runs
          · next hk => exact elsewhere hk
      | ends runs idle eq =>
          rw [eq]
          split
          · next hk =>
              subst hk
              exact old.ends hcs free runs idle
          · next hk => exact elsewhere hk
  | enter => exact old.same fun p run => by simp [hcs, Stage.run?]
  | refuse => exact old.same fun p run => by rw [hcs]
  | leave he => exact old.same fun p run => by simp [hcs, he.idle]
  | aside _ ha =>
      rw [ha.readings.2.1]
      exact old.same fun p run => by rw [hcs]

theorem recorded (taken : Taken terms keys calls s c a r calls' keys' s')
    (calm : a ≠ .clearEntries) (rec : Recorded keys calls s h) :
    Recorded keys' (Function.update calls c calls') s' (⟨c, a, r⟩ :: h) where
  indexed := taken.indexed calm rec.indexed
  fits := taken.fits rec.fits
  active := taken.active rec.active
  published := taken.published calm rec.indexed rec.published
  holder := taken.holder rec.holder
  openRuns key := (taken.openRuns ⟨rec.openRuns key, rec.apart key⟩).iff
  apart key := (taken.openRuns ⟨rec.openRuns key, rec.apart key⟩).apart

end Taken

namespace Recorded

variable {terms : Terms} {keys : List Key} {calls : ClientId → List Call} {s : Store} {h : History}
  {c c' : ClientId} {x y : Call}

theorem slotOf?_eq (rec : Recorded keys calls s h) (t : Tenure terms keys calls s)
    (hx : x ∈ calls c) {id : SlotId} (hs : x.stage.slot? = some id) :
    s.slotOf? x.key = some id :=
  rec.indexed id x.key (t.slot c x hx id hs)

theorem entryOf?_of_known (rec : Recorded keys calls s h) (t : Tenure terms keys calls s)
    (hx : x ∈ calls c) (e : Entry) (he : x.stage.entry? = some e) :
    s.entryOf? x.key = some e := by
  simp [Store.entryOf?, rec.slotOf?_eq t hx (Stage.slot?_of_entry? he), t.known c x hx e he]

theorem entryOf?_of_vacant (rec : Recorded keys calls s h) (t : Tenure terms keys calls s)
    (hx : x ∈ calls c) {id : SlotId} (hv : x.stage.vacancy? = some id) :
    s.entryOf? x.key = none := by
  have hs := Stage.slot?_of_gate? (Stage.gate?_of_vacancy? hv)
  simp [Store.entryOf?, rec.slotOf?_eq t hx hs, t.vacant c x hx id hv]

theorem suits (t : Tenure terms keys calls s) {key : Key} {e : Entry}
    (he : s.entryOf? key = some e) : e.Suits terms key e.slot ∧ (s.slot e.slot).entry = some e := by
  obtain ⟨id, hs, hi⟩ := Option.bind_eq_some_iff.1 he
  have suits := t.suits (t.index key id hs) hi
  obtain rfl := suits.slot
  exact ⟨suits, hi⟩

end Recorded

theorem Nested.eq_of_key {l : List Call} (nested : Nested l) {x y : Call} (hx : x ∈ l)
    (hy : y ∈ l) (hk : x.key = y.key) : x = y := by
  by_contra hne
  have apart : l.Pairwise fun c d => c.key ≠ d.key :=
    nested.pairwise.imp fun h he => h (congrArg Key.name he)
  have symmetric : Std.Symm fun c d : Call => c.key ≠ d.key := ⟨fun _ _ => Ne.symm⟩
  exact apart.forall hx hy hne hk

namespace Recorded

variable {terms : Terms} {keys : List Key} {calls : ClientId → List Call} {s : Store} {h : History}
  {c c' : ClientId} {x y : Call}

theorem gate_unique (rec : Recorded keys calls s h) (t : Tenure terms keys calls s)
    (hx : x ∈ calls c) (hy : y ∈ calls c') (hk : x.key = y.key) {i j : SlotId}
    (gx : x.stage.gate? = some i) (gy : y.stage.gate? = some j) : c = c' ∧ x = y := by
  have sx := rec.slotOf?_eq t hx (Stage.slot?_of_gate? gx)
  have sy := rec.slotOf?_eq t hy (Stage.slot?_of_gate? gy)
  rw [hk] at sx
  cases sx.symm.trans sy
  have held := (t.gate i c).2 ⟨x, hx, gx⟩
  obtain rfl : c = c' := Option.some.inj (held.symm.trans ((t.gate i c').2 ⟨y, hy, gy⟩))
  exact ⟨rfl, (t.nested c).eq_of_key hx hy hk⟩

theorem cell_unique (rec : Recorded keys calls s h) (t : Tenure terms keys calls s)
    (hx : x ∈ calls c) (hy : y ∈ calls c') (hk : x.key = y.key) {i j : SlotId}
    (lx : x.stage.cell? = some i) (ly : y.stage.cell? = some j) : c = c' ∧ x = y := by
  have sx := rec.slotOf?_eq t hx (Stage.slot?_of_cell? lx)
  have sy := rec.slotOf?_eq t hy (Stage.slot?_of_cell? ly)
  rw [hk] at sx
  cases sx.symm.trans sy
  have held := (t.cell i c).2 ⟨x, hx, lx⟩
  obtain rfl : c = c' := Cell.filling.inj (held.symm.trans ((t.cell i c').2 ⟨y, hy, ly⟩))
  exact ⟨rfl, (t.nested c).eq_of_key hx hy hk⟩

end Recorded

/-- What every step keeps that is no reset. -/
def KeptCalm (terms : Terms)
    (J : List Key → (ClientId → List Call) → Store → History → Prop) : Prop :=
  ∀ {keys calls s c a r calls' keys' s' h}, Taken terms keys calls s c a r calls' keys' s' →
    a ≠ .clearEntries → Recorded keys calls s h → J keys calls s h →
      J keys' (Function.update calls c calls') s' (⟨c, a, r⟩ :: h)

/-- What is true where nobody has reset the registry, the record included. -/
def Calmly (J : List Key → (ClientId → List Call) → Store → History → Prop) (keys : List Key)
    (calls : ClientId → List Call) (s : Store) (h : History) : Prop :=
  h.Calm → Recorded keys calls s h ∧ J keys calls s h

theorem calmly_kept {terms : Terms}
    {J : List Key → (ClientId → List Call) → Store → History → Prop} (kept : KeptCalm terms J) :
    Kept terms (Calmly J) := by
  intro keys calls s c a r calls' keys' s' h taken old calm
  obtain ⟨rec, hj⟩ := old (calm.suffix (List.suffix_cons _ _))
  have quiet : a ≠ .clearEntries := calm ⟨c, a, r⟩ List.mem_cons_self
  exact ⟨taken.recorded quiet rec, kept taken quiet rec hj⟩

theorem recorded_start : Recorded [] (fun _ => []) .empty [] where
  indexed id key h := by simp at h
  fits := by simp
  active _ := rfl
  published _ := rfl
  holder _ := rfl
  openRuns := by simp [History.openRuns]
  apart _ := .nil

/-- In a run without reset the record is kept, and so is what steps keep that are no resets. -/
theorem Machine.Reaches.recorded {setting : Setting} {jobs : List (List Demand)} {m : Machine}
    (reach : (Machine.start setting jobs).Reaches m) (calm : m.history.Calm)
    {J : List Key → (ClientId → List Call) → Store → History → Prop}
    (start : J [] (fun _ => []) .empty []) (kept : KeptCalm (.plain setting.observers none) J) :
    ∃ keys calls, m.Conducted (.plain setting.observers none) keys calls (fun _ _ => True) ∧
      Recorded keys calls m.store m.history ∧ J keys calls m.store m.history := by
  obtain ⟨keys, calls, conducted, both⟩ :=
    reach.conducted (J := Calmly J) (fun _ => ⟨recorded_start, start⟩) (calmly_kept kept)
  exact ⟨keys, calls, conducted, both calm⟩

end Wiring.Registry
