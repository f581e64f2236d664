import Wiring.Proofs.Registry.Generations
import Wiring.Proofs.Registry.Renaming

/-!
Machines and the numbers of slots. What a client goes on to do depends on the slots that its calls
under way have looked up and on those that have an entry, and on no others; and a registry whose
slots are numbered in another way takes the same steps.
-/
namespace Wiring.Registry

section Still

/-- The renaming leaves the slots that a response tells of as they are. -/
def Action.Still (f : Renaming) : (a : Action) → a.Response → Prop
  | .claimSlot _, slot => f slot = slot
  | .findEntry _, found => ∀ e, found = some e → f e.slot = e.slot
  | .readEntry _, found => ∀ e, found = some e → f e.slot = e.slot
  | .publish .., e => f e.slot = e.slot
  | _, _ => True

theorem Entry.move_eq_self {f : Renaming} {e : Entry} (h : f e.slot = e.slot) : e.move f = e := by
  simp [Entry.move, h]

theorem Performed.move_eq_self {f : Renaming} {c : ClientId} {a : Action} {r : a.Response}
    (ha : a.move f = a) (still : a.Still f r) : Performed.move f ⟨c, a, r⟩ = ⟨c, a, r⟩ := by
  have found {found : Option Entry} (still : ∀ e, found = some e → f e.slot = e.slot) :
      found.map (Entry.move f) = found := by
    cases found with
    | none => rfl
    | some e => exact congrArg some (Entry.move_eq_self (still e rfl))
  cases a with
  | claimSlot key => simp_all [Performed.move, Action.move, Action.moveResponse, Action.Still]
  | findEntry key =>
      simp only [Performed.move, Action.move, Action.moveResponse, found still]
  | readEntry slot =>
      simp only [Action.move, Action.readEntry.injEq] at ha
      simp only [Performed.move, Action.move, Action.moveResponse, found still]
      simp [ha]
  | publish slot e =>
      simp only [Action.move, Action.publish.injEq] at ha
      simp only [Performed.move, Action.move, Action.moveResponse, Entry.move_eq_self still]
      simp [ha]
  | _ => simp_all [Performed.move, Action.move, Action.moveResponse]

theorem Program.Like.step_self {α : Type} {a : Action} {next : a.Response → Program α}
    {σ σ' : Layers} {post : Layers → α → α → Prop}
    (like : (step a next).Like σ (step a next) post) {r : a.Response} (still : a.Still (σ 0) r)
    (enters : a.Enters r σ σ') : (next r).Like σ' (next r) post := by
  obtain ⟨next', same, goes⟩ := like
  have now := goes r σ' enters
  clear goes
  have ha : a.move (σ 0) = a := by
    injection same with ha
    exact ha.symm
  have moved := Performed.move_eq_self (c := 0) ha still
  generalize hr : a.moveResponse (σ 0) r = r' at now
  simp only [Performed.move, hr] at moved
  clear hr
  generalize a.move (σ 0) = a' at *
  subst ha
  simp only [Performed.mk.injEq, heq_eq_eq, true_and] at moved
  obtain rfl := moved
  cases same
  exact now

end Still

/-- The layers leave alone the slots that have an entry, and each the slot that its call has looked
up. -/
structure Layers.Fix (σ : Layers) (s : Store) (ds : List (List History)) : Prop where
  entries : ∀ i id, (s.slot id).entry.isSome → σ i id = id
  looked : ∀ i own, ds[i]? = some own → ∀ slot n, lookup? own = some (slot, n) → σ i slot = slot

namespace Layers.Fix

variable {σ : Layers} {s s' : Store} {ds : List (List History)} {own : List History} {x : History}

theorem before (fix : σ.Fix s' ds)
    (kept : ∀ id, (s.slot id).entry.isSome → (s'.slot id).entry.isSome) : σ.Fix s ds :=
  ⟨fun i id there => fix.entries i id (kept id there), fix.looked⟩

/-- What a call has looked up it still has looked up after a further step. -/
theorem inner (fix : σ.Fix s (ds.modifyHead (x :: ·))) : σ.Fix s ds := by
  refine ⟨fix.entries, fun i own there slot n found => ?_⟩
  cases ds with
  | nil => cases there
  | cons first rest =>
      cases i with
      | zero =>
          cases there
          exact fix.looked 0 (x :: own) rfl slot n (by rw [lookup?_cons, found]; rfl)
      | succ i => exact fix.looked (i + 1) own there slot n found

theorem outer (fix : σ.Fix s (own :: ds)) : σ.outer.Fix s ds :=
  ⟨fun i => fix.entries (i + 1), fun i own' there => fix.looked (i + 1) own' there⟩

/-- The layer of a call that has come back leaves everything alone. -/
theorem under (fix : σ.Fix s ds.tail) : σ.under.Fix s ds := by
  refine ⟨fun i id there => ?_, fun i own there slot n found => ?_⟩
  · cases i with
    | zero => rfl
    | succ i => exact fix.entries i id there
  · cases i with
    | zero => rfl
    | succ i =>
        cases ds with
        | nil => cases there
        | cons first rest => exact fix.looked i own there slot n found

end Layers.Fix

section Plastic

variable {terms : Terms} {keys : List Key} {calls : ClientId → List Call} {s : Store}
  {c : ClientId} {a : Action} {r : a.Response} {calls' : List Call} {keys' : List Key} {s' : Store}
  {h : History}

theorem Taken.entries_kept (taken : Taken terms keys calls s c a r calls' keys' s') (id : SlotId)
    (there : (s.slot id).entry.isSome) : (s'.slot id).entry.isSome := by
  obtain ⟨e, he⟩ := Option.isSome_iff_exists.1 there
  rw [Action.entry_kept taken.performs he]
  rfl

/-- The slots that a client learns of are those that it has then looked up or that have an
entry. -/
theorem Taken.still (taken : Taken terms keys calls s c a r calls' keys' s')
    (traced : Traced terms keys calls s h) {σ : Layers}
    (fix : σ.Fix s' (History.deeds c (⟨c, a, r⟩ :: h))) : a.Still (σ 0) r := by
  have known := taken.after.known c
  rw [Function.update_self] at known
  have found (e : Entry) (there : (s'.slot e.slot).entry = some e) : σ 0 e.slot = e.slot :=
    fix.entries 0 e.slot (by rw [there]; rfl)
  have move := taken.move
  have performs := taken.performs
  have shows := traced.shows c
  generalize calls c = cs at move shows performs
  cases move with
  | @own call rest _ _ stage n =>
      have deeds := n.deeds (c := c) (h := h) c
      have told (e : Entry) (he : stage.entry? = some e) : σ 0 e.slot = e.slot :=
        found e (known { call with stage } List.mem_cons_self e he)
      generalize hd : h.deeds c = ds at shows deeds
      cases shows with
      | cons comes _ =>
          have looked := comes.looked.entered
          obtain ⟨key, mode, offer, old⟩ := call
          cases n with
          | find | hit | pass =>
              intro e same
              cases same
              exact told _ rfl
          | absent | miss | confirm =>
              intro e same
              cases same
          | publish | publishMade => exact told _ rfl
          | claim =>
              rw [if_pos rfl] at deeds
              rw [deeds] at fix
              exact fix.looked 0 _ rfl _ _ (by rw [lookup?_cons, looked rfl]; rfl)
          | _ => trivial
  | enter | refuse | leave => trivial
  | aside _ ha =>
      cases a with
      | findEntry key =>
          intro e same
          simp only [Action.perform, Option.some.injEq, Prod.mk.injEq] at performs
          obtain ⟨rfl, -, rfl⟩ := performs
          obtain ⟨id, -, he⟩ := Option.bind_eq_some_iff.1 same
          obtain ⟨k, -, suits⟩ := taken.before.entry id e he
          obtain rfl := suits.slot
          exact found e he
      | newProducer | countEntries | clearEntries | readCell | note | pause | yield | observe =>
          trivial
      | _ => cases ha

/-- Layers that fix what is known after a step fixed what was known before it. -/
theorem Taken.fixed_before (taken : Taken terms keys calls s c a r calls' keys' s')
    {σ : Layers} (fix : σ.Fix s' (History.deeds c (⟨c, a, r⟩ :: h))) :
    ∃ σ₀ : Layers, σ₀.Fix s (h.deeds c) ∧ a.Enters r σ₀ σ ∧
      (a.Still (σ 0) r → a.Still (σ₀ 0) r) := by
  replace fix := fix.before taken.entries_kept
  have move := taken.move
  generalize calls c = cs at move
  cases move with
  | @own call _ _ _ _ n =>
      rw [n.deeds, if_pos rfl] at fix
      refine ⟨σ, fix.inner, ?_, fun still => still⟩
      obtain ⟨_, _, _, stage⟩ := call
      cases n <;> rfl
  | enter =>
      simp only [History.deeds, if_true] at fix
      exact ⟨σ.outer, fix.outer, rfl, fun _ => trivial⟩
  | refuse =>
      simp only [History.deeds, if_true] at fix
      exact ⟨σ, fix.inner, rfl, fun _ => trivial⟩
  | leave =>
      simp only [History.deeds, if_true] at fix
      exact ⟨σ.under, fix.under, rfl, fun _ => trivial⟩
  | aside _ ha =>
      rw [ha.deeds, if_pos rfl] at fix
      refine ⟨σ, fix.inner, ?_, fun still => still⟩
      cases a with
      | newProducer | findEntry | countEntries | clearEntries | readCell | note | pause | yield
      | observe => rfl
      | _ => cases ha

end Plastic

/-- Every client goes on in the same way under layers that leave alone what it knows. -/
def Machine.Plastic (m : Machine) : Prop :=
  ∀ c client, m.clients[c]? = some client → ∀ σ : Layers, σ.Fix m.store (m.history.deeds c) →
    client.program.Like σ client.program fun _ a b => a = b

theorem Machine.Reaches.plastic {setting : Setting} {jobs : List (List Demand)} {m : Machine}
    (reach : (Machine.start setting jobs).Reaches m) : m.Plastic := by
  induction reach with
  | start =>
      intro c client hc σ _
      obtain ⟨demands, -, rfl⟩ := Option.map_eq_some_iff.1 (List.getElem?_map ▸ hc)
      exact (Program.like_work demands).mono fun _ _ _ back => back.2
  | @step m m' c reach hs ih =>
      intro d client hd σ fix
      obtain ⟨keys, calls, conducted, traced⟩ := reach.traced
      obtain ⟨a, r, calls', keys', taken, history, -⟩ := conducted.step rfl hs (told_plain _)
      rw [history] at fix
      by_cases hdc : d = c
      · subst hdc
        obtain ⟨trail, a', next, r', trail', store, hc, -, rfl⟩ := Machine.step_cases hs
        cases history
        obtain ⟨hlt, -⟩ := List.getElem?_eq_some_iff.1 hc
        rw [List.getElem?_set_self hlt] at hd
        cases hd
        obtain ⟨σ₀, fix₀, enters, still⟩ := taken.fixed_before fix
        exact (ih d _ hc σ₀ fix₀).step_self (still (taken.still traced fix)) enters
      · rw [History.deeds_other (fun same => hdc same.symm)] at fix
        rw [Machine.step_other (fun same => hdc same.symm) hs] at hd
        exact ih d client hd σ (fix.before taken.entries_kept)

def Slot.move (f : Renaming) (σ : Slot) : Slot := { σ with entry := σ.entry.map (Entry.move f) }

/-- The second store is the first one with its slots numbered anew, and perhaps some slots that
nobody knows of. -/
structure Store.Mirrors (f : Renaming) (s s' : Store) : Prop where
  apart : ∀ i j, f i = f j → i = j
  next : ∀ n, f (s.slots.length + n) = s'.slots.length + n
  below : ∀ id, id < s.slots.length → f id < s'.slots.length
  slot : ∀ id, s'.slot (f id) = (s.slot id).move f
  slotOf? : ∀ key, s'.slotOf? key = (s.slotOf? key).map f
  once : (s.index.map Prod.fst).Nodup
  once' : (s'.index.map Prod.fst).Nodup
  runs : s'.runs = s.runs
  made : s'.made = s.made
  producers : s'.producers = s.producers

namespace Store.Mirrors

variable {f : Renaming} {s s' : Store} {key : Key}

theorem entryOf? (mirrors : s.Mirrors f s') :
    s'.entryOf? key = (s.entryOf? key).map (Entry.move f) := by
  unfold Store.entryOf?
  rw [mirrors.slotOf? key]
  cases s.slotOf? key with
  | none => rfl
  | some id => exact congrArg Slot.entry (mirrors.slot id)

theorem cell (mirrors : s.Mirrors f s') (id : SlotId) :
    (s'.slot (f id)).cell = (s.slot id).cell := by
  rw [mirrors.slot]
  rfl

theorem stateOf (mirrors : s.Mirrors f s') : s'.stateOf key = s.stateOf key := by
  unfold Store.stateOf
  rw [mirrors.entryOf?]
  cases s.entryOf? key with
  | none => rfl
  | some e =>
      obtain ⟨key, policy, slot, resolution⟩ := e
      cases resolution with
      | lazySingletonAsync p => simp only [Option.map_some, Entry.move, mirrors.cell]
      | _ => rfl

theorem policyOf (mirrors : s.Mirrors f s') : s'.policyOf key = s.policyOf key := by
  unfold Store.policyOf
  rw [mirrors.entryOf?]
  cases s.entryOf? key <;> rfl

theorem registered (mirrors : s.Mirrors f s') : s'.registered = s.registered :=
  Store.registered_congr mirrors.once mirrors.once' fun _ => mirrors.stateOf

theorem answer? (mirrors : s.Mirrors f s') {m : Mode} (q : Request m) :
    s'.answer? q = s.answer? q := by
  have found {key : Key} : (s'.entryOf? key).isSome = (s.entryOf? key).isSome := by
    rw [mirrors.entryOf?, Option.isSome_map]
  cases q <;> simp [Store.answer?, mirrors.stateOf, mirrors.policyOf, mirrors.registered, found]

theorem update (mirrors : s.Mirrors f s') {id : SlotId} {g g' : Slot → Slot}
    (h : ∀ σ, g' (σ.move f) = (g σ).move f) :
    (s.update id g).Mirrors f (s'.update (f id) g') := by
  refine { mirrors with
    next := by simpa using mirrors.next
    below := by simpa using mirrors.below
    slot := fun j => ?_ }
  by_cases hj : j = id
  · subst hj
    by_cases hl : j < s.slots.length
    · rw [Store.slot_update _ hl, Store.slot_update _ (mirrors.below j hl), mirrors.slot, h]
    · obtain ⟨n, rfl⟩ := Nat.exists_eq_add_of_le (Nat.le_of_not_lt hl)
      have hl' : s'.slots.length ≤ f (s.slots.length + n) := by
        rw [mirrors.next]
        exact Nat.le_add_right _ _
      rw [Store.slot_of_length_le (s'.update _ g') (by rwa [Store.length_update]),
        Store.slot_of_length_le (s.update _ g) (by simp)]
      rfl
  · rw [Store.slot_update_of_ne _ hj,
      Store.slot_update_of_ne _ fun same => hj (mirrors.apart _ _ same), mirrors.slot]

theorem claim (key : Key) (mirrors : s.Mirrors f s') :
    (s'.claim key).1 = f (s.claim key).1 ∧ (s.claim key).2.Mirrors f (s'.claim key).2 := by
  cases hs : s.slotOf? key with
  | some id =>
      have hs' : s'.slotOf? key = some (f id) := by rw [mirrors.slotOf?, hs]; rfl
      rw [Store.claim_of_some hs, Store.claim_of_some hs']
      exact ⟨rfl, mirrors⟩
  | none =>
      have hs' : s'.slotOf? key = none := by rw [mirrors.slotOf?, hs]; rfl
      have once := Store.nodup_claim key mirrors.once
      have once' := Store.nodup_claim key mirrors.once'
      have next := mirrors.next 0
      rw [Store.claim_of_none hs] at once ⊢
      rw [Store.claim_of_none hs'] at once' ⊢
      refine ⟨next.symm,
        { mirrors with next := ?_, below := ?_, slot := ?_, slotOf? := ?_, once, once' }⟩
      · intro n
        have later := mirrors.next (n + 1)
        simp only [List.length_append, List.length_singleton]
        rw [Nat.add_assoc, Nat.add_assoc, Nat.add_comm 1 n, later]
      · intro id hl
        simp only [List.length_append, List.length_singleton] at hl ⊢
        by_cases old : id < s.slots.length
        · exact Nat.lt_succ_of_lt (mirrors.below id old)
        · obtain rfl : id = s.slots.length :=
            Nat.le_antisymm (Nat.le_of_lt_succ hl) (Nat.le_of_not_lt old)
          exact next.symm ▸ Nat.lt_succ_self _
      · intro id
        rw [Store.slot_append, Store.slot_append, mirrors.slot]
      · intro k
        have old := mirrors.slotOf? k
        simp only [Store.slotOf?] at old ⊢
        rw [List.lookup_append, List.lookup_append, old]
        cases s.index.lookup k with
        | some id => rfl
        | none =>
            simp only [List.lookup_cons, List.lookup_nil, Option.map_none, Option.none_or]
            split
            · exact congrArg some next.symm
            · rfl

variable {c : ClientId} {t t₁ : Trail} {s₁ : Store} {a : Action}

theorem cleared (mirrors : s.Mirrors f s') :
    ({ s with index := [] } : Store).Mirrors f { s' with index := [] } :=
  { mirrors with slotOf? := fun _ => rfl, once := List.nodup_nil, once' := List.nodup_nil }

/-- What has to wait has to wait in the other store too. -/
theorem waits (mirrors : s.Mirrors f s') (h : a.perform c t s = none) :
    (a.move f).perform c t s' = none := by
  cases a with
  | takeGate slot | claimCell slot =>
      simp only [Action.perform, Action.move, mirrors.slot, Slot.move] at h ⊢
      split at h <;> simp_all
  | leave => simpa [Action.perform, Action.move] using h
  | endRun slot key p run outcome => cases outcome <;> cases h
  | enter | publish | tryGate | readCell =>
      simp only [Action.perform] at h
      split at h <;> cases h
  | _ => cases h

theorem publishes (mirrors : s.Mirrors f s') {slot : SlotId} {e r : Entry}
    (h : (Action.publish slot e).perform c t s = some (r, t₁, s₁)) :
    ∃ s₁', ((Action.publish slot e).move f).perform c t s' =
      some ((Action.publish slot e).moveResponse f r, t₁, s₁') ∧ s₁.Mirrors f s₁' := by
  simp only [Action.perform, Action.move, mirrors.slot, Slot.move] at h ⊢
  cases he : (s.slot slot).entry with
  | some existing =>
      simp only [he] at h
      cases h
      exact ⟨s', by simp [Action.moveResponse], mirrors⟩
  | none =>
      simp only [he] at h
      cases h
      exact ⟨_, by simp [Action.moveResponse]; rfl, mirrors.update fun _ => rfl⟩

theorem tries (mirrors : s.Mirrors f s') {slot : SlotId} {r : Bool}
    (h : (Action.tryGate slot).perform c t s = some (r, t₁, s₁)) :
    ∃ s₁', ((Action.tryGate slot).move f).perform c t s' =
      some ((Action.tryGate slot).moveResponse f r, t₁, s₁') ∧ s₁.Mirrors f s₁' := by
  simp only [Action.perform, Action.move, mirrors.slot, Slot.move] at h ⊢
  cases hg : (s.slot slot).gate with
  | some holder =>
      simp only [hg] at h ⊢
      cases h
      exact ⟨s', rfl, mirrors⟩
  | none =>
      simp only [hg] at h ⊢
      cases h
      exact ⟨_, rfl, mirrors.update fun _ => rfl⟩

theorem takes (mirrors : s.Mirrors f s') {slot : SlotId} {r : Unit}
    (h : (Action.takeGate slot).perform c t s = some (r, t₁, s₁)) :
    ∃ s₁', ((Action.takeGate slot).move f).perform c t s' =
      some ((Action.takeGate slot).moveResponse f r, t₁, s₁') ∧ s₁.Mirrors f s₁' := by
  simp only [Action.perform, Action.move, mirrors.slot, Slot.move] at h ⊢
  cases hg : (s.slot slot).gate with
  | some holder => simp [hg] at h
  | none =>
      simp only [hg] at h ⊢
      cases h
      exact ⟨_, rfl, mirrors.update fun _ => rfl⟩

theorem claims (mirrors : s.Mirrors f s') {slot : SlotId} {r : Option Instance}
    (h : (Action.claimCell slot).perform c t s = some (r, t₁, s₁)) :
    ∃ s₁', ((Action.claimCell slot).move f).perform c t s' =
      some ((Action.claimCell slot).moveResponse f r, t₁, s₁') ∧ s₁.Mirrors f s₁' := by
  simp only [Action.perform, Action.move, mirrors.cell] at h ⊢
  cases hc : (s.slot slot).cell with
  | full inst =>
      simp only [hc] at h ⊢
      cases h
      exact ⟨s', rfl, mirrors⟩
  | filling holder => simp [hc] at h
  | empty =>
      simp only [hc] at h ⊢
      cases h
      exact ⟨_, rfl, mirrors.update fun _ => rfl⟩

/-- A step takes the two stores to two that mirror each other again. -/
theorem performs (mirrors : s.Mirrors f s') {r : a.Response}
    (h : a.perform c t s = some (r, t₁, s₁)) :
    ∃ s₁', (a.move f).perform c t s' = some (a.moveResponse f r, t₁, s₁') ∧
      s₁.Mirrors f s₁' := by
  cases a with
  | claimSlot key =>
      simp only [Action.perform, Option.some.injEq, Prod.mk.injEq] at h
      obtain ⟨rfl, rfl, rfl⟩ := h
      obtain ⟨found, claimed⟩ := mirrors.claim key
      exact ⟨_, by simp only [Action.move, Action.perform, Action.moveResponse, found], claimed⟩
  | findEntry key =>
      simp only [Action.perform, Option.some.injEq, Prod.mk.injEq] at h
      obtain ⟨rfl, rfl, rfl⟩ := h
      exact ⟨_, by
        simp only [Action.move, Action.perform, Action.moveResponse, mirrors.entryOf?], mirrors⟩
  | readEntry slot =>
      simp only [Action.perform, Option.some.injEq, Prod.mk.injEq] at h
      obtain ⟨rfl, rfl, rfl⟩ := h
      exact ⟨_, by
        simp only [Action.move, Action.perform, Action.moveResponse, mirrors.slot, Slot.move],
        mirrors⟩
  | countEntries =>
      cases h
      exact ⟨_, by
        simp only [Action.move, Action.perform, Action.moveResponse, mirrors.registered], mirrors⟩
  | clearEntries =>
      cases h
      exact ⟨_, by
        simp only [Action.move, Action.perform, Action.moveResponse, mirrors.registered],
        mirrors.cleared⟩
  | publish slot e => exact mirrors.publishes h
  | tryGate slot => exact mirrors.tries h
  | takeGate slot => exact mirrors.takes h
  | readCell slot =>
      simp only [Action.perform, Action.move, mirrors.cell] at h ⊢
      cases hc : (s.slot slot).cell <;> simp only [hc] at h ⊢ <;> cases h <;>
        exact ⟨s', rfl, mirrors⟩
  | claimCell slot => exact mirrors.claims h
  | freeGate slot | fillCell slot inst | freeCell slot =>
      cases h
      exact ⟨_, rfl, mirrors.update fun _ => rfl⟩
  | newProducer =>
      cases h
      refine ⟨{ s' with producers := s'.producers + 1 }, ?_, ?_⟩
      · simp only [Action.move, Action.perform, Action.moveResponse, mirrors.producers]
      · exact { mirrors with producers := congrArg (· + 1) mirrors.producers }
  | beginRun slot key p =>
      cases h
      refine ⟨{ s' with runs := fun q => if q = p then s'.runs p + 1 else s'.runs q }, ?_, ?_⟩
      · simp only [Action.move, Action.perform, Action.moveResponse, mirrors.runs]
      · exact { mirrors with runs := by simp only [mirrors.runs] }
  | endRun slot key p run outcome =>
      cases outcome with
      | error e =>
          cases h
          exact ⟨s', rfl, mirrors⟩
      | ok payload =>
          cases h
          refine ⟨{ s' with made := s'.made + 1 }, ?_, ?_⟩
          · simp only [Action.move, Action.perform, Action.moveResponse, mirrors.made]
          · exact { mirrors with made := congrArg (· + 1) mirrors.made }
  | enter mode key offer =>
      simp only [Action.perform, Action.move] at h ⊢
      split at h <;> cases h <;> exact ⟨s', rfl, mirrors⟩
  | leave mode key before result =>
      obtain ⟨t', left, same⟩ := Option.map_eq_some_iff.1 h
      cases same
      exact ⟨s', by simp only [Action.move, Action.perform, left]; rfl, mirrors⟩
  | observe | note | pause | yield =>
      cases h
      exact ⟨s', rfl, mirrors⟩

end Store.Mirrors

end Wiring.Registry
