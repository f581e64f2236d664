import Wiring.Proofs.Registry.Deeds
import Wiring.Proofs.Registry.SingleFlight

/-!
Where instances and entries come from. An instance that a slot keeps, or that a call has in hand,
was made by a run for that slot; an entry was published by a call for its key; and the producers of
both were handed to calls for the key.
-/
namespace Wiring.Registry

namespace History

/-- A run for `slot` has made the instance. -/
def Makes (h : History) (slot : SlotId) (inst : Instance) : Prop :=
  ∃ c o h', ⟨c, .endRun slot inst.key inst.producer inst.run o, .ok inst⟩ :: h' <:+ h

/-- The producer was handed to a registering call for `key` that was let in. -/
def Hands (h : History) (key : Key) (p : ProducerId) : Prop :=
  ∃ c mode task h', ⟨c, .enter mode key (some p), .ok task⟩ :: h' <:+ h

/-- The instance was made by a producer that was handed to a call for its key. -/
def Created (h : History) (inst : Instance) : Prop :=
  (∃ slot, h.Makes slot inst) ∧ h.Hands inst.key inst.producer

theorem Makes.mono {h h' : History} (hs : h <:+ h') {slot : SlotId} {inst : Instance}
    (makes : h.Makes slot inst) : h'.Makes slot inst := by
  obtain ⟨c, o, before, there⟩ := makes
  exact ⟨c, o, before, there.trans hs⟩

theorem Hands.mono {h h' : History} (hs : h <:+ h') {key : Key} {p : ProducerId}
    (hands : h.Hands key p) : h'.Hands key p := by
  obtain ⟨c, mode, task, before, there⟩ := hands
  exact ⟨c, mode, task, before, there.trans hs⟩

end History

/-- A slot gives the instance to a call: its entry or its cell keeps it, or the call has made it
with the producer of an entry that shares nothing. -/
def Slot.Gives (σ : Slot) (own : List History) (inst : Instance) : Prop :=
  ∃ e, σ.entry = some e ∧ (e.resolution.instance? = some inst ∨ σ.cell = .full inst ∨
    e.resolution.isLazy = false ∧ ∃ p, e.resolution.producer? = some p ∧
      runs own = [(p, .ok inst)])

/-- An instance tells the run that has made it. -/
theorem Made.origin {key : Key} {p : ProducerId} {run : Nat} {outcome : Outcome} {inst : Instance}
    (made : Made key p run outcome (.ok inst)) :
    inst.key = key ∧ inst.producer = p ∧ inst.run = run := by
  obtain ⟨serial, made⟩ := made
  cases outcome with
  | ok payload =>
      cases made
      exact ⟨rfl, rfl, rfl⟩
  | error e => cases made

theorem Store.slot_update_eq (s : Store) (id j : SlotId) (f : Slot → Slot) :
    (s.update id f).slot j = s.slot j ∨ j = id ∧ (s.update id f).slot j = f (s.slot j) := by
  by_cases hj : j = id
  · subst hj
    by_cases hl : j < s.slots.length
    · exact .inr ⟨rfl, s.slot_update hl f⟩
    · left
      rw [Store.slot_of_length_le s (Nat.le_of_not_lt hl)]
      exact Store.slot_of_length_le _ (by simpa using hl)
  · exact .inl (s.slot_update_of_ne hj f)

section Effect

variable {c : ClientId} {t t' : Trail} {s s' : Store} {a : Action} {r : a.Response} {id : SlotId}

/-- A cell that is full was so before, or it has just been filled. -/
theorem Action.full_cases (hp : a.perform c t s = some (r, t', s')) {inst : Instance}
    (full : (s'.slot id).cell = .full inst) :
    (s.slot id).cell = .full inst ∨ a = .fillCell id inst := by
  cases Action.alters hp with
  | nothing slots => exact .inl (by simpa only [Store.slot, slots] using full)
  | @slot _ j f writes =>
      cases s.slot_update_eq j id f with
      | inl same => exact .inl (same ▸ full)
      | inr here =>
          obtain ⟨rfl, here⟩ := here
          rw [here] at full
          cases a with
          | publish | tryGate | takeGate | freeGate =>
              cases writes
              exact .inl full
          | fillCell =>
              cases writes
              cases full
              exact .inr rfl
          | claimCell | freeCell =>
              cases writes
              cases full
          | _ => cases writes
  | index => exact .inl (by rwa [Store.slot_claim] at full)

/-- An entry was there before, or it has just been published. -/
theorem Action.entry_cases (hp : a.perform c t s = some (r, t', s')) {e : Entry}
    (entry : (s'.slot id).entry = some e) :
    (s.slot id).entry = some e ∨ a = .publish id e := by
  cases Action.alters hp with
  | nothing slots => exact .inl (by simpa only [Store.slot, slots] using entry)
  | @slot _ j f writes =>
      cases s.slot_update_eq j id f with
      | inl same => exact .inl (same ▸ entry)
      | inr here =>
          obtain ⟨rfl, here⟩ := here
          rw [here] at entry
          cases a with
          | publish =>
              cases writes
              cases entry
              exact .inr rfl
          | tryGate | takeGate | freeGate | claimCell | fillCell | freeCell =>
              cases writes
              exact .inl entry
          | _ => cases writes
  | index => exact .inl (by rwa [Store.slot_claim] at entry)

theorem Action.entry_kept (hp : a.perform c t s = some (r, t', s')) {e : Entry}
    (entry : (s.slot id).entry = some e) : (s'.slot id).entry = some e := by
  by_cases ha : ∃ slot e', a = .publish slot e'
  · obtain ⟨slot, e', rfl⟩ := ha
    simp only [Action.perform] at hp
    split at hp
    · cases hp
      exact entry
    · next vacant =>
        cases hp
        have hne : id ≠ slot := fun he => by
          subst he
          cases entry.symm.trans vacant
        rw [s.slot_update_of_ne hne, entry]
  · rw [Action.perform_entry hp fun slot e' he => ha ⟨slot, e', he⟩, entry]

end Effect

/-- Every call has come to its stage by its deeds, and what slots and calls have was published or
made for them. -/
structure Traced (terms : Terms) (_ : List Key) (calls : ClientId → List Call) (s : Store)
    (h : History) : Prop where
  shows : ∀ c, List.Forall₂ (Call.Comes terms c) (h.deeds c) (calls c)
  active : ∀ c, h.active c = (calls c).map fun call => (call.key, call.offer)
  published : ∀ id e, (s.slot id).entry = some e →
    ∃ c r h', ⟨c, .publish id e, r⟩ :: h' <:+ h
  stored : ∀ id e inst, (s.slot id).entry = some e → e.resolution.instance? = some inst →
    h.Makes id inst
  cached : ∀ id inst, (s.slot id).cell = .full inst → h.Makes id inst
  inHand : ∀ c, ∀ call ∈ calls c, ∀ id inst, call.stage.slot? = some id →
    call.stage.yield? = some inst → h.Makes id inst

theorem traced_start (terms : Terms) : Traced terms [] (fun _ => []) .empty [] where
  shows _ := .nil
  active _ := rfl
  published id e h := by simp [Store.slot, Store.empty, Slot.fresh] at h
  stored id e inst h := by simp [Store.slot, Store.empty, Slot.fresh] at h
  cached id inst h := by simp [Store.slot, Store.empty, Slot.fresh] at h
  inHand := by simp

namespace Taken

variable {terms : Terms} {keys : List Key} {calls : ClientId → List Call} {s : Store}
  {c : ClientId} {a : Action} {r : a.Response} {calls' : List Call} {keys' : List Key} {s' : Store}
  {h : History}

theorem makes_of_fill {slot : SlotId} {inst : Instance} {r : Unit}
    (taken : Taken terms keys calls s c (.fillCell slot inst) r calls' keys' s')
    (old : Traced terms keys calls s h) : h.Makes slot inst := by
  obtain ⟨⟨key, mode, offer, stage⟩, rest, stage', hcs, -, step⟩ := taken.own rfl
  cases step with
  | fill => exact old.inHand c _ (hcs ▸ List.mem_cons_self) _ inst rfl rfl

theorem makes_of_publish {slot : SlotId} {e : Entry} {r : Entry} {inst : Instance}
    (taken : Taken terms keys calls s c (.publish slot e) r calls' keys' s')
    (old : Traced terms keys calls s h) (hi : e.resolution.instance? = some inst) :
    h.Makes slot inst := by
  obtain ⟨mode, offer, stage, rest, hcs, -, -, vacant, how⟩ := taken.publisher
  have hs := Stage.slot?_of_gate? (Stage.gate?_of_vacancy? vacant)
  cases how with
  | inl left =>
      obtain ⟨-, none, -⟩ := left
      cases none.symm.trans hi
  | inr right =>
      obtain ⟨i, rfl, hi'⟩ := right
      cases hi.symm.trans hi'
      exact old.inHand c _ (hcs ▸ List.mem_cons_self) slot inst hs rfl

/-- What a step of a call has in hand it had before, or the step has made it. -/
theorem makes_of_yield {call : Call} {stage : Stage} {id : SlotId} {inst : Instance}
    (step : call.stage.Next terms call.key call.offer a r stage) (hs : stage.slot? = some id)
    (hy : stage.yield? = some inst)
    (old : ∀ id inst, call.stage.slot? = some id → call.stage.yield? = some inst →
      h.Makes id inst) :
    History.Makes (⟨c, a, r⟩ :: h) id inst := by
  obtain ⟨key, mode, offer, before⟩ := call
  have made {p : ProducerId} {run : Nat} {outcome : Outcome} {slot : SlotId}
      (hm : Made key p run outcome (.ok inst)) :
      History.Makes (⟨c, .endRun slot key p run outcome, .ok inst⟩ :: h) slot inst := by
    obtain ⟨rfl, rfl, rfl⟩ := hm.origin
    exact ⟨c, outcome, h, List.suffix_refl _⟩
  cases step with
  | @tried _ _ _ _ result hm | @made _ _ _ _ result hm =>
      cases result with
      | ok i =>
          cases hy
          cases hs
          exact made hm
      | error e => cases hy
  | observe => exact (old id inst hs hy).mono (List.suffix_cons _ _)
  | _ => cases hy

end Taken

theorem traced_kept (terms : Terms) : Kept terms (Traced terms) := by
  intro keys calls s c a r calls' keys' s' h taken old
  have later := List.suffix_cons (⟨c, a, r⟩ : Performed) h
  refine ⟨shows_kept terms taken old.shows, taken.active old.active, ?_, ?_, ?_, ?_⟩
  · intro id e he
    cases Action.entry_cases taken.performs he with
    | inl there =>
        obtain ⟨c', r', h', published⟩ := old.published id e there
        exact ⟨c', r', h', published.trans later⟩
    | inr now =>
        subst now
        exact ⟨c, r, h, List.suffix_refl _⟩
  · intro id e inst he hi
    cases Action.entry_cases taken.performs he with
    | inl there => exact (old.stored id e inst there hi).mono later
    | inr now =>
        subst now
        exact (taken.makes_of_publish old hi).mono later
  · intro id inst full
    cases Action.full_cases taken.performs full with
    | inl there => exact (old.cached id inst there).mono later
    | inr now =>
        subst now
        exact (taken.makes_of_fill old).mono later
  · intro c' x hx id inst hs hy
    cases taken.origin hx with
    | old there => exact (old.inHand c' x there id inst hs hy).mono later
    | entered new => simp [new, Stage.yield?] at hy
    | stepped _ there step => exact Taken.makes_of_yield step hs hy (old.inHand c _ there)

/-- What a call has made is of its key. -/
theorem Call.Comes.key {terms : Terms} {c : ClientId} {own : List History} {call : Call}
    (comes : call.Comes terms c own) {inst : Instance} (made : call.stage.yield? = some inst) :
    inst.key = call.key := by
  induction comes with
  | entered => cases made
  | @next own call a r stage h _ step ih =>
      obtain ⟨key, mode, offer, before⟩ := call
      cases step with
      | @tried _ _ _ _ result hm | @made _ _ _ _ result hm =>
          cases result with
          | ok i =>
              cases made
              exact hm.key
          | error e => cases made
      | observe => exact ih made
      | _ => cases made
  | aside _ _ _ ih | refused _ _ ih => exact ih made

section Machines

variable {setting : Setting} {jobs : List (List Demand)} {m : Machine}

theorem Machine.Reaches.traced (reach : (Machine.start setting jobs).Reaches m) :
    ∃ keys calls, m.Conducted (.plain setting.observers none) keys calls (fun _ _ => True) ∧
      Traced (.plain setting.observers none) keys calls m.store m.history :=
  reach.conducted (traced_start _) (traced_kept _)

theorem Machine.Reaches.performs (reach : (Machine.start setting jobs).Reaches m) {m' : Machine}
    {c : ClientId} (hs : m.step c = some m') :
    ∃ keys calls a r calls' keys', m'.history = ⟨c, a, r⟩ :: m.history ∧
      Taken (.plain setting.observers none) keys calls m.store c a r calls' keys' m'.store := by
  obtain ⟨keys, calls, conducted, -⟩ :=
    reach.conducted (J := fun _ _ _ _ => True) trivial fun _ _ => trivial
  obtain ⟨a, r, calls', keys', taken, history, -⟩ := conducted.step rfl hs (told_plain _)
  exact ⟨keys, calls, a, r, calls', keys', history, taken⟩

/-- What slots keep, they keep for good. -/
theorem Machine.Reaches.slot_kept (reach : (Machine.start setting jobs).Reaches m) {m' : Machine}
    (later : m.Reaches m') (id : SlotId) :
    (∀ e, (m.store.slot id).entry = some e → (m'.store.slot id).entry = some e) ∧
      ∀ inst, (m.store.slot id).cell = .full inst → (m'.store.slot id).cell = .full inst := by
  induction later with
  | start => exact ⟨fun _ he => he, fun _ full => full⟩
  | step later hs ih =>
      obtain ⟨_, _, _, _, _, _, -, taken⟩ := (reach.trans later).performs hs
      exact ⟨fun e he => Action.entry_kept taken.performs (ih.1 e he),
        fun inst full => taken.full_kept (ih.2 inst full)⟩

/-- Without a reset a key keeps its slot. -/
theorem Machine.Reaches.slotOf?_kept (reach : (Machine.start setting jobs).Reaches m)
    {m' : Machine} (later : m.Reaches m') (calm : m'.history.resets = m.history.resets) {key : Key}
    {id : SlotId} (hk : m.store.slotOf? key = some id) : m'.store.slotOf? key = some id := by
  induction later with
  | start => exact hk
  | @step m₁ m' c later hs ih =>
      obtain ⟨_, _, a, r, _, _, history, taken⟩ := (reach.trans later).performs hs
      have grown := History.resets_mono later.suffix
      have more := History.resets_cons ⟨c, a, r⟩ m₁.history
      rw [← history] at more
      have quiet := more.2.1 (by omega)
      exact (Action.perform_slotOf? taken.performs quiet).1 key id (ih (by omega))

/-- Without a reset an entry stays. -/
theorem Machine.Reaches.entryOf?_kept (reach : (Machine.start setting jobs).Reaches m)
    {m' : Machine} (later : m.Reaches m') (calm : m'.history.resets = m.history.resets) {key : Key}
    {e : Entry} (he : m.store.entryOf? key = some e) : m'.store.entryOf? key = some e := by
  obtain ⟨id, hk, he⟩ := Option.bind_eq_some_iff.1 he
  exact Option.bind_eq_some_iff.2
    ⟨id, reach.slotOf?_kept later calm hk, (reach.slot_kept later id).1 e he⟩

variable {terms : Terms} {keys : List Key} {calls : ClientId → List Call} {s : Store} {h : History}
  {c : ClientId} {call : Call}

theorem exists_of_forall₂ {α β : Type} {R : α → β → Prop} {l : List α} {l' : List β}
    (all : List.Forall₂ R l l') {y : β} (hy : y ∈ l') : ∃ x ∈ l, R x y := by
  induction all with
  | nil => cases hy
  | cons first _ ih =>
      cases hy with
      | head => exact ⟨_, List.mem_cons_self, first⟩
      | tail _ hy =>
          obtain ⟨x, hx, hr⟩ := ih hy
          exact ⟨x, List.mem_cons_of_mem _ hx, hr⟩

theorem Traced.fits (traced : Traced terms keys calls s h) (c : ClientId) (call : Call)
    (hc : call ∈ calls c) : call.Fits := by
  obtain ⟨own, -, comes⟩ := exists_of_forall₂ (traced.shows c) hc
  exact comes.fits

/-- The producer that a call has was handed to it as it was let in. -/
theorem Traced.hands (traced : Traced terms keys calls s h) (hc : call ∈ calls c) {p : ProducerId}
    (hp : call.offer = some p) : h.Hands call.key p := by
  obtain ⟨own, ho, comes⟩ := exists_of_forall₂ (traced.shows c) hc
  obtain ⟨task, before, first⟩ := comes.entry
  rw [hp] at first
  exact ⟨c, call.mode, task, before,
    History.suffix_of_deeds ho (List.mem_of_getLast? first)⟩

/-- The producer of an entry was handed to a call for its key, and so was the one that has made the
instance it holds. -/
theorem Machine.Reaches.entry_handed (reach : (Machine.start setting jobs).Reaches m)
    {id : SlotId} {e : Entry} (he : (m.store.slot id).entry = some e) {p : ProducerId}
    (hp : e.resolution.producer? = some p ∨
      ∃ inst, e.resolution.instance? = some inst ∧ inst.producer = p) :
    m.history.Hands e.key p := by
  obtain ⟨keys, calls, -, traced⟩ := reach.traced
  obtain ⟨c, r, h, there⟩ := traced.published id e he
  obtain ⟨keys, calls, calls', keys', m₁, m₂, -, -, -, rfl, taken, traced⟩ :=
    reach.taken (traced_start _) (traced_kept _) there
  refine History.Hands.mono ((List.suffix_cons _ _).trans there) ?_
  obtain ⟨mode, offer, stage, rest, hcs, -, -, -, how⟩ := taken.publisher
  have top : (⟨e.key, mode, offer, stage⟩ : Call) ∈ calls c := by simp [hcs]
  refine traced.hands top ?_
  cases how with
  | inl left =>
      obtain ⟨-, none, offered⟩ := left
      cases hp with
      | inl hp => exact offered.symm.trans hp
      | inr hp =>
          obtain ⟨inst, hi, -⟩ := hp
          cases none.symm.trans hi
  | inr right =>
      obtain ⟨inst, rfl, hi⟩ := right
      cases hp with
      | inl hp => cases (Resolution.instance?_of_producer hp).symm.trans hi
      | inr hp =>
          obtain ⟨inst', hi', rfl⟩ := hp
          cases hi.symm.trans hi'
          exact traced.fits c _ top inst rfl

/-- Who ends a run has it under way: a run of what was handed to the call, or of its entry. -/
theorem Taken.runner {a : Action} {r : a.Response} {calls' : List Call} {keys' : List Key}
    {s' : Store} {slot : SlotId} {key : Key} {p : ProducerId}
    (taken : Taken terms keys calls s c a r calls' keys' s')
    (ha : a = .beginRun slot key p ∨ ∃ run o, a = .endRun slot key p run o)
    (fits : ∀ call ∈ calls c, call.Fits) :
    ∃ call rest, calls c = call :: rest ∧ call.key = key ∧ call.stage.slot? = some slot ∧
      (call.offer = some p ∨
        ∃ e, call.stage.entry? = some e ∧ e.resolution.producer? = some p) := by
  have works : a.slot? = some slot := by obtain rfl | ⟨run, o, rfl⟩ := ha <;> rfl
  obtain ⟨call, rest, stage', hcs, -, step⟩ := taken.own works
  have fits := fits call (by simp [hcs])
  refine ⟨call, rest, hcs, ?_⟩
  obtain ⟨k, mode, offer, stage⟩ := call
  obtain rfl | ⟨run, o, rfl⟩ := ha
  · cases step with
    | attempt hp => exact ⟨rfl, rfl, .inl hp⟩
    | makeFresh _ hp | makeShared _ hp => exact ⟨rfl, rfl, .inr ⟨_, rfl, hp⟩⟩
  · cases step with
    | tried => exact ⟨rfl, rfl, .inl fits⟩
    | made => exact ⟨rfl, rfl, .inr ⟨_, rfl, fits⟩⟩

/-- The call that comes back is the innermost one. -/
theorem Taken.leaves {mode : Mode} {key : Key} {before : List String} {result : Resolved} {r : Unit}
    {calls' : List Call} {keys' : List Key} {s' : Store}
    (taken : Taken terms keys calls s c (.leave mode key before result) r calls' keys' s') :
    ∃ call, calls c = call :: calls' ∧ call.key = key ∧ call.stage.Ends key result := by
  have move := taken.move
  generalize calls c = cs at move
  cases move with
  | @own call _ _ _ _ n =>
      obtain ⟨_, _, _, stage⟩ := call
      cases n
  | @leave call _ _ ends => exact ⟨call, rfl, rfl, ends⟩
  | aside _ ha => cases ha

/-- Whatever has been made was made by a producer that was handed to a call for the key. -/
theorem Machine.Reaches.created (reach : (Machine.start setting jobs).Reaches m)
    {slot : SlotId} {inst : Instance} (makes : m.history.Makes slot inst) :
    m.history.Created inst := by
  refine ⟨⟨slot, makes⟩, ?_⟩
  obtain ⟨c, o, h, there⟩ := makes
  obtain ⟨keys, calls, calls', keys', m₁, m₂, reach₁, -, -, rfl, taken, traced⟩ :=
    reach.taken (traced_start _) (traced_kept _) there
  refine History.Hands.mono ((List.suffix_cons _ _).trans there) ?_
  obtain ⟨call, rest, hcs, hk, -, how⟩ := taken.runner (.inr ⟨_, o, rfl⟩) (traced.fits c)
  have top : call ∈ calls c := by simp [hcs]
  rw [← hk]
  cases how with
  | inl offered => exact traced.hands top offered
  | inr entered =>
      obtain ⟨e, he, hp⟩ := entered
      have known := taken.before.known c call top e he
      have suits := taken.before.suits
        (taken.before.slot c call top _ (Stage.slot?_of_entry? he)) known
      rw [← suits.key]
      exact reach₁.entry_handed known (.inl hp)

section Leaving

variable {c : ClientId} {mode : Mode} {key : Key} {before : List String} {h : History}

/-- A call that has come back did so from the stage that its deeds have led to. -/
theorem Machine.Reaches.leaves (reach : (Machine.start setting jobs).Reaches m) {result : Resolved}
    (there : ⟨c, .leave mode key before result, ()⟩ :: h <:+ m.history) :
    ∃ keys calls m₁ call rest own, (Machine.start setting jobs).Reaches m₁ ∧ m₁.Reaches m ∧
      m₁.history = h ∧ Tenure (.plain setting.observers none) keys calls m₁.store ∧
        Traced (.plain setting.observers none) keys calls m₁.store h ∧ calls c = call :: rest ∧
          (h.deeds c).head? = some own ∧ call.Comes (.plain setting.observers none) c own ∧
            call.key = key ∧ call.stage.Ends key result := by
  obtain ⟨keys, calls, calls', keys', m₁, m₂, reach₁, later, hs, rfl, taken, traced⟩ :=
    reach.taken (traced_start _) (traced_kept _) there
  obtain ⟨call, hcs, hk, ends⟩ := taken.leaves
  have shows := traced.shows c
  rw [hcs] at shows
  generalize m₁.history.deeds c = ds at shows ⊢
  cases shows with
  | @cons own _ _ _ comes _ =>
      exact ⟨keys, calls, m₁, call, calls', own, reach₁,
        (Machine.Reaches.step .start hs).trans later, rfl, taken.before, traced, hcs,
        rfl, comes, hk, ends⟩

/-- A call comes back with an instance of the slot that it looked up, which was made for this
slot. -/
theorem Machine.Reaches.returned (reach : (Machine.start setting jobs).Reaches m) {inst : Instance}
    (there : ⟨c, .leave mode key before (.ok inst), ()⟩ :: h <:+ m.history) :
    ∃ own slot n, (h.deeds c).head? = some own ∧ lookup? own = some (slot, n) ∧
      h.Makes slot inst ∧ (m.store.slot slot).Gives own inst ∧ inst.key = key := by
  obtain ⟨keys, calls, m₁, call, rest, own, reach₁, later, rfl, tenure, traced, hcs, hd, comes, rfl,
    ends⟩ := reach.leaves there
  have top : call ∈ calls c := by simp [hcs]
  have known := tenure.known c call top
  have cached := tenure.cached c call top
  have slotted := tenure.slot c call top
  have inHand := traced.inHand c call top
  have looked := comes.looked.slot
  have made (hy : call.stage.yield? = some inst) := comes.key hy
  have ran := comes.ran
  have kept (id : SlotId) := reach₁.slot_kept later id
  obtain ⟨key, mode, offer, stage⟩ := call
  refine ⟨own, ?_⟩
  cases ends with
  | @stored e _ hi =>
      obtain ⟨n, found⟩ := looked e.slot rfl
      have suits := tenure.suits (slotted e.slot rfl) (known e rfl)
      exact ⟨e.slot, n, hd, found, traced.stored _ e inst (known e rfl) hi,
        ⟨e, (kept _).1 e (known e rfl), .inl hi⟩, (suits.sound.key inst hi).trans suits.key⟩
  | @cached e _ =>
      obtain ⟨n, found⟩ := looked e.slot rfl
      have full := cached e inst rfl
      have same := (tenure.full_key (slotted e.slot rfl) (known e rfl) full).2.2
      exact ⟨e.slot, n, hd, found, traced.cached _ inst full,
        ⟨e, (kept _).1 e (known e rfl), .inr (.inl ((kept _).2 inst full))⟩, same⟩
  | @fresh e _ unshared =>
      obtain ⟨n, found⟩ := looked e.slot rfl
      exact ⟨e.slot, n, hd, found, inHand e.slot inst rfl rfl,
        ⟨e, (kept _).1 e (known e rfl), .inr (.inr ⟨unshared, ran⟩)⟩, made rfl⟩

/-- A call fails with the error of the run that it has made, unless it has found no entry or its
thread may not wait. -/
theorem Machine.Reaches.failed (reach : (Machine.start setting jobs).Reaches m)
    {error : ResolveError}
    (there : ⟨c, .leave mode key before (.error error), ()⟩ :: h <:+ m.history) :
    ∃ own, (h.deeds c).head? = some own ∧
      (lookup? own = none ∧ error = .notRegistered key.name ∨
        error = .blockingInAsyncContext key.name ∨ ∃ p, runs own = [(p, .error error)]) := by
  obtain ⟨_, _, _, call, _, own, -, -, -, -, -, -, hd, comes, rfl, ends⟩ := reach.leaves there
  exact ⟨own, hd, comes.error ends⟩

end Leaving

end Machines

end Wiring.Registry
