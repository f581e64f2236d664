import Wiring.Proofs.Registry.SlotNumbers

/-!
Slots that stay empty. A slot that is in the index without an entry, and that no call under way has
looked up, may as well not be there: with the key dropped from the index, clients take the same
steps in every order, and nobody can tell the difference. The key gets a slot of a higher number
when it is claimed the next time, and all later slots move up by one.
-/
namespace Wiring.Registry

def Store.without (s : Store) (key : Key) : Store :=
  { s with index := s.index.filter fun p => p.1 ≠ key }

def Machine.without (m : Machine) (key : Key) : Machine :=
  { m with store := m.store.without key }

def Performed.blur (p : Performed) : Performed := p.move fun _ => 0

/-- No call under way has looked the slot up. -/
def History.Unseen (h : History) (id : SlotId) : Prop :=
  ∀ c, ∀ own ∈ h.deeds c, ∀ n, lookup? own ≠ some (id, n)

/-- Nothing tells the two machines apart but the numbers of slots. -/
structure Machine.Alike (m m' : Machine) : Prop where
  answers : ∀ mode (q : Request mode), m'.store.answer? q = m.store.answer? q
  replies : ∀ (c : ClientId) (replies : List Reply),
    (∃ trail, m'.clients[c]? = some (Client.mk trail (.done replies))) ↔
      ∃ trail, m.clients[c]? = some (Client.mk trail (.done replies))
  history : m'.history.map Performed.blur = m.history.map Performed.blur
  events : m'.history.events = m.history.events

/-- The machines go on alike: in every order of clients the same steps have to wait, and nothing
tells apart what is reached. -/
def Machine.Indistinct (m m' : Machine) : Prop :=
  ∀ order : List ClientId, (m.follow order = none ∧ m'.follow order = none) ∨
    ∃ m₁ m₁', m.follow order = some m₁ ∧ m'.follow order = some m₁' ∧ m₁.Alike m₁'

section Without

variable {s : Store} {key : Key}

theorem lookup_filter_ne (index : List (Key × SlotId)) (k : Key) :
    (index.filter fun p => p.1 ≠ key).lookup k = if k = key then none else index.lookup k := by
  induction index with
  | nil => simp
  | cons p index ih =>
      obtain ⟨k', id⟩ := p
      by_cases hk : k' = key
      · subst hk
        rw [List.filter_cons_of_neg (by simp), ih]
        by_cases same : k = k'
        · simp [same]
        · have other : (k == k') = false := beq_eq_false_iff_ne.2 same
          simp [same, List.lookup_cons, other]
      · rw [List.filter_cons_of_pos (by simpa using hk), List.lookup_cons, List.lookup_cons, ih]
        by_cases same : k = k'
        · subst same
          simp [hk]
        · have other : (k == k') = false := beq_eq_false_iff_ne.2 same
          simp [other]

@[simp] theorem Store.slotOf?_without (k : Key) :
    (s.without key).slotOf? k = if k = key then none else s.slotOf? k :=
  lookup_filter_ne s.index k

theorem Store.entryOf?_without (vacant : s.entryOf? key = none) (k : Key) :
    (s.without key).entryOf? k = s.entryOf? k := by
  rw [Store.entryOf?, Store.slotOf?_without]
  split
  · next same => rw [same, vacant]; rfl
  · rfl

theorem Store.nodup_without (key : Key) (apart : (s.index.map Prod.fst).Nodup) :
    ((s.without key).index.map Prod.fst).Nodup := apart.sublist (List.filter_sublist.map _)

theorem Store.claim_without {k : Key} (hk : k ≠ key) :
    (s.without key).claim k = ((s.claim k).1, (s.claim k).2.without key) := by
  have same : (s.without key).slotOf? k = s.slotOf? k := by simp [hk]
  cases hs : s.slotOf? k with
  | some id => rw [Store.claim_of_some (same.trans hs), Store.claim_of_some hs]
  | none =>
      rw [Store.claim_of_none (same.trans hs), Store.claim_of_none hs]
      simp [Store.without, hk]

theorem Store.answer?_without (apart : (s.index.map Prod.fst).Nodup)
    (vacant : s.entryOf? key = none) {m : Mode} (q : Request m) :
    (s.without key).answer? q = s.answer? q :=
  Store.answer?_congr apart (Store.nodup_without key apart) (Store.entryOf?_without vacant)
    (fun _ => rfl) q

theorem Store.registered_without (apart : (s.index.map Prod.fst).Nodup)
    (vacant : s.entryOf? key = none) : (s.without key).registered = s.registered := by
  have count := Store.answer?_without apart vacant .len
  simpa [Store.answer?] using count

/-- A step that does not claim a slot for the key does the same without it. -/
theorem Action.perform_without (apart : (s.index.map Prod.fst).Nodup)
    (vacant : s.entryOf? key = none) {a : Action} (ha : a ≠ .claimSlot key) (c : ClientId)
    (t : Trail) :
    a.perform c t (s.without key) =
      (a.perform c t s).map fun x => (x.1, x.2.1, x.2.2.without key) := by
  have slot (id : SlotId) : (s.without key).slot id = s.slot id := rfl
  have count := Store.registered_without apart vacant
  cases a with
  | claimSlot k =>
      have hk : k ≠ key := fun same => ha (same ▸ rfl)
      simp [Action.perform, Store.claim_without hk]
  | findEntry k => simp [Action.perform, Store.entryOf?_without vacant]
  | countEntries => simp [Action.perform, count]
  | clearEntries =>
      simp only [Action.perform, count]
      rfl
  | publish | tryGate | takeGate | readCell | claimCell =>
      simp only [Action.perform, slot]
      split <;> rfl
  | enter =>
      simp only [Action.perform]
      split <;> rfl
  | leave => simp [Action.perform, Option.map_map, Function.comp_def]
  | endRun _ _ _ _ outcome => cases outcome <;> rfl
  | _ => rfl

end Without

section Blur

theorem Performed.blur_move (f : Renaming) (p : Performed) : (p.move f).blur = p.blur := by
  obtain ⟨c, a, r⟩ := p
  cases a with
  | findEntry | readEntry => cases r <;> rfl
  | _ => rfl

theorem Performed.blur_cons {p : Performed} {f : Renaming} {h h' : History}
    (same : h'.map blur = h.map blur) : (p.move f :: h').map blur = (p :: h).map blur := by
  rw [List.map_cons, List.map_cons, same, blur_move]

theorem History.events_blur (h : History) : History.events (h.map Performed.blur) = h.events := by
  unfold History.events
  rw [← List.map_reverse, List.filterMap_map]
  congr 1
  funext p
  obtain ⟨c, a, r⟩ := p
  cases a <;> rfl

theorem Machine.Alike.of_blur {m m' : Machine}
    (answers : ∀ mode (q : Request mode), m'.store.answer? q = m.store.answer? q)
    (replies : ∀ (c : ClientId) (replies : List Reply),
      (∃ trail, m'.clients[c]? = some (Client.mk trail (.done replies))) ↔
        ∃ trail, m.clients[c]? = some (Client.mk trail (.done replies)))
    (history : m'.history.map Performed.blur = m.history.map Performed.blur) : m.Alike m' where
  answers
  replies
  history
  events := by rw [← History.events_blur, history, History.events_blur]

end Blur

/-- Slot `id` is to be found at `n` instead, and all from `n` on are moved up by one. -/
def renumber (id n i : Nat) : Nat := if i = id then n else if i < n then i else i + 1

section Renumber

variable {id n : Nat}

theorem renumber_self : renumber id n id = n := if_pos rfl

theorem renumber_of_lt {i : Nat} (hi : i ≠ id) (hl : i < n) : renumber id n i = i := by
  simp [renumber, hi, hl]

theorem renumber_of_le {i : Nat} (hid : id < n) (hl : n ≤ i) : renumber id n i = i + 1 := by
  have hi : i ≠ id := by omega
  simp [renumber, hi, Nat.not_lt.2 hl]

theorem renumber_injective {i j : Nat} (h : renumber id n i = renumber id n j) :
    i = j := by
  unfold renumber at h
  grind

end Renumber

section Unseen

variable {terms : Terms} {keys : List Key} {calls : ClientId → List Call} {s : Store}
  {c : ClientId} {a : Action} {r : a.Response} {calls' : List Call} {keys' : List Key} {s' : Store}
  {h : History} {id : SlotId} {key : Key}

theorem Traced.not_looked (traced : Traced terms keys calls s h) (unseen : h.Unseen id)
    {call : Call} (hc : call ∈ calls c) : call.stage.slot? ≠ some id := by
  intro hs
  obtain ⟨own, ho, comes⟩ := exists_of_forall₂ (traced.shows c) hc
  obtain ⟨n, found⟩ := comes.looked.slot id hs
  exact unseen c own ho n found

/-- A slot without an entry that nobody has looked up is as it was when it was made. -/
theorem Traced.fresh (traced : Traced terms keys calls s h) (tenure : Tenure terms keys calls s)
    (vacant : (s.slot id).entry = none) (unseen : h.Unseen id) : s.slot id = .fresh := by
  have gate : (s.slot id).gate = none := by
    refine Option.eq_none_iff_forall_ne_some.2 fun c held => ?_
    obtain ⟨call, hc, hs⟩ := (tenure.gate id c).1 held
    exact traced.not_looked unseen hc (Stage.slot?_of_gate? hs)
  have cell : (s.slot id).cell = .empty := by
    cases hcell : (s.slot id).cell with
    | empty => rfl
    | filling c =>
        obtain ⟨call, hc, hs⟩ := (tenure.cell id c).1 hcell
        exact absurd (Stage.slot?_of_cell? hs) (traced.not_looked unseen hc)
    | full inst =>
        obtain ⟨e, he, -⟩ := tenure.full id inst hcell
        cases vacant.symm.trans he
  rw [← show (⟨(s.slot id).gate, (s.slot id).entry, (s.slot id).cell⟩ : Slot) = s.slot id from rfl,
    gate, vacant, cell]
  rfl

/-- Where its key is not claimed, nobody finds the slot. -/
theorem Taken.vacant_kept (taken : Taken terms keys calls s c a r calls' keys' s')
    (traced : Traced terms keys calls s h) (vacant : (s.slot id).entry = none)
    (unseen : h.Unseen id) : (s'.slot id).entry = none := by
  refine Option.eq_none_iff_forall_ne_some.2 fun e he => ?_
  cases Action.entry_cases taken.performs he with
  | inl there => cases vacant.symm.trans there
  | inr now =>
      obtain ⟨call, rest, hcs, hs⟩ := taken.worker (show a.slot? = some id by rw [now]; rfl)
      exact traced.not_looked unseen (show call ∈ calls c by simp [hcs]) hs

theorem Taken.unseen_kept (taken : Taken terms keys calls s c a r calls' keys' s')
    (indexed : s.slotOf? key = some id) (vacant : (s.slot id).entry = none)
    (unseen : h.Unseen id) (ha : a ≠ .claimSlot key) :
    History.Unseen (⟨c, a, r⟩ :: h) id := by
  have apart (n : Nat) : History.looks? (⟨c, a, r⟩ :: h) ≠ some (id, n) := by
    intro looks
    have hp := taken.performs
    cases a with
    | claimSlot k =>
        simp only [Action.perform, Option.some.injEq, Prod.mk.injEq] at hp
        obtain ⟨rfl, -, rfl⟩ := hp
        simp only [History.looks?, Option.some.injEq, Prod.mk.injEq] at looks
        obtain ⟨claimed, -⟩ := looks
        have known := taken.before.index key id indexed
        cases hk : s.slotOf? k with
        | some j =>
            rw [Store.claim_of_some hk] at claimed
            have known' := taken.before.index k j hk
            obtain rfl : j = id := claimed
            cases known.symm.trans known'
            exact ha rfl
        | none =>
            rw [Store.claim_of_none hk] at claimed
            exact Nat.ne_of_lt (taken.before.lt_length known) claimed.symm
    | findEntry k =>
        simp only [Action.perform, Option.some.injEq, Prod.mk.injEq] at hp
        obtain ⟨rfl, -, rfl⟩ := hp
        cases he : s.entryOf? k with
        | none => simp [History.looks?, he] at looks
        | some e =>
            simp only [History.looks?, he, Option.some.injEq, Prod.mk.injEq] at looks
            obtain ⟨rfl, -⟩ := looks
            obtain ⟨j, -, he⟩ := Option.bind_eq_some_iff.1 he
            obtain ⟨_, -, suits⟩ := taken.before.entry j e he
            rw [suits.slot] at vacant
            cases vacant.symm.trans he
    | _ => cases looks
  intro me own ho n found
  obtain before | rfl | ⟨own, before, rfl⟩ := History.deeds_cases ho
  · exact unseen me own before n found
  · exact apart n (by simpa [lookup?_cons, lookup?] using found)
  · rw [lookup?_cons] at found
    cases there : lookup? own with
    | some known =>
        rw [there] at found
        cases found
        exact unseen me own before n there
    | none =>
        rw [there] at found
        exact apart n found

end Unseen

/-- A client goes on as another one does, with slots renamed. -/
def Client.Follows (f : Renaming) (client client' : Client) : Prop :=
  client'.trail = client.trail ∧
    client.program.Like (fun _ => f) client'.program fun _ a b => a = b

/-- Two machines that go on alike: they are one machine, or the second one lacks an empty slot of
the first one, or its slots are numbered in another way. -/
inductive Machine.Twin (setting : Setting) (jobs : List (List Demand)) : Machine → Machine → Prop
  | same {m : Machine} : Twin setting jobs m m
  | lacks {m : Machine} {key : Key} {id : SlotId} (reach : (Machine.start setting jobs).Reaches m)
      (indexed : m.store.slotOf? key = some id) (vacant : (m.store.slot id).entry = none)
      (unseen : m.history.Unseen id) : Twin setting jobs m (m.without key)
  | renamed {m m' : Machine} {f : Renaming} (store : m.store.Mirrors f m'.store)
      (clients : ∀ c : ClientId, Option.Rel (Client.Follows f) m.clients[c]? m'.clients[c]?)
      (history : m'.history.map Performed.blur = m.history.map Performed.blur) :
      Twin setting jobs m m'

section Twins

variable {setting : Setting} {jobs : List (List Demand)} {m m' : Machine} {c : ClientId}

theorem Action.enters_same {a : Action} {r : a.Response} {f : Renaming} :
    a.Enters r (fun _ => f) fun _ => f := by
  cases a with
  | enter => cases r <;> rfl
  | _ => rfl

theorem Machine.step_eq_some {trail trail' : Trail} {a : Action} {r : a.Response} {store : Store}
    {next : a.Response → Program (List Reply)} (hc : m.clients[c]? = some ⟨trail, .step a next⟩)
    (hp : a.perform c trail m.store = some (r, trail', store)) :
    m.step c = some ⟨m.clients.set c ⟨trail', next r⟩, store, ⟨c, a, r⟩ :: m.history⟩ := by
  simp only [Machine.step, hc, hp]

theorem Machine.step_eq_none {trail : Trail} {a : Action}
    {next : a.Response → Program (List Reply)} (hc : m.clients[c]? = some ⟨trail, .step a next⟩)
    (hp : a.perform c trail m.store = none) : m.step c = none := by
  simp only [Machine.step, hc, hp]

/-- Both machines take the step, or neither does. -/
theorem Machine.Twin.of_renamed {f : Renaming} (store : m.store.Mirrors f m'.store)
    (clients : ∀ c : ClientId, Option.Rel (Client.Follows f) m.clients[c]? m'.clients[c]?)
    (history : m'.history.map Performed.blur = m.history.map Performed.blur) (c : ClientId) :
    (m.step c = none ∧ m'.step c = none) ∨
      ∃ m₁ m₁', m.step c = some m₁ ∧ m'.step c = some m₁' ∧ Machine.Twin setting jobs m₁ m₁' := by
  have mine := clients c
  generalize hc : m.clients[c]? = client at mine
  generalize hc' : m'.clients[c]? = client' at mine
  cases mine with
  | none => exact .inl ⟨by simp [Machine.step, hc], by simp [Machine.step, hc']⟩
  | @some client client' follows =>
      obtain ⟨trail, program⟩ := client
      obtain ⟨trail', program'⟩ := client'
      obtain ⟨rfl, like⟩ := follows
      simp only at like hc hc'
      cases program with
      | done replies =>
          obtain ⟨_, rfl, -⟩ := like
          exact .inl ⟨by simp [Machine.step, hc], by simp [Machine.step, hc']⟩
      | step a next =>
          obtain ⟨next', rfl, goes⟩ := like
          cases hp : a.perform c trail' m.store with
          | none =>
              have hp' := store.waits hp
              exact .inl ⟨Machine.step_eq_none hc hp, Machine.step_eq_none hc' hp'⟩
          | some found =>
              obtain ⟨r, trail₁, store₁⟩ := found
              obtain ⟨store₁', hp', mirrors⟩ := store.performs hp
              refine .inr ⟨_, _, Machine.step_eq_some hc hp, Machine.step_eq_some hc' hp',
                .renamed mirrors (fun d => ?_) (Performed.blur_cons (p := ⟨c, a, r⟩) history)⟩
              by_cases hd : d = c
              · subst hd
                rw [List.getElem?_set_self (List.getElem?_eq_some_iff.1 hc).1,
                  List.getElem?_set_self (List.getElem?_eq_some_iff.1 hc').1]
                exact .some ⟨rfl, goes r _ Action.enters_same⟩
              · rw [List.getElem?_set_ne (Ne.symm hd), List.getElem?_set_ne (Ne.symm hd)]
                exact clients d

/-- What the claim of its key makes of a store that lacks an empty slot. -/
theorem Store.Mirrors.of_claim {s : Store} {key : Key} {id : SlotId}
    (indexed : s.slotOf? key = some id) (apart : (s.index.map Prod.fst).Nodup)
    (once : ∀ k i, s.slotOf? k = some i → i < s.slots.length ∧ (i = id → k = key))
    (fresh : s.slot id = .fresh) (own : ∀ i e, (s.slot i).entry = some e → e.slot = i) :
    s.Mirrors (renumber id s.slots.length) ((s.without key).claim key).2 := by
  have hid := (once key id indexed).1
  have absent : (s.without key).slotOf? key = none := by simp
  have nodup := Store.nodup_claim key (Store.nodup_without key apart)
  rw [Store.claim_of_none absent] at nodup ⊢
  refine ⟨fun i j => renumber_injective, ?_, ?_, ?_, ?_, apart, nodup, rfl, rfl, rfl⟩
  · intro n
    rw [renumber_of_le hid (Nat.le_add_right _ _)]
    simp only [Store.without, List.length_append, List.length_singleton]
    exact Nat.add_right_comm _ _ _
  · intro i hi
    simp only [Store.without, List.length_append, List.length_singleton]
    by_cases hi' : i = id
    · rw [hi', renumber_self]
      exact Nat.lt_succ_self _
    · rw [renumber_of_lt hi' hi]
      exact Nat.lt_succ_of_lt hi
  · intro i
    rw [Store.slot_append]
    change s.slot (renumber id s.slots.length i) = (s.slot i).move _
    by_cases hi : i = id
    · rw [hi, renumber_self, fresh, Store.slot_of_length_le s (Nat.le_refl _)]
      rfl
    · by_cases hl : i < s.slots.length
      · rw [renumber_of_lt hi hl, Slot.move]
        cases he : (s.slot i).entry with
        | none => rw [Option.map_none, ← he]
        | some e =>
            have still : renumber id s.slots.length e.slot = e.slot := by
              rw [own i e he, renumber_of_lt hi hl]
            rw [Option.map_some, Entry.move_eq_self still, ← he]
      · have hle := Nat.le_of_not_lt hl
        rw [renumber_of_le hid hle, Store.slot_of_length_le s (Nat.le_succ_of_le hle),
          Store.slot_of_length_le s hle]
        rfl
  · intro k
    simp only [Store.slotOf?, List.lookup_append]
    by_cases hk : k = key
    · subst hk
      rw [← Store.slotOf?, absent, show s.index.lookup k = some id from indexed]
      simp [renumber_self, Store.without]
    · have there : (s.without key).index.lookup k = s.index.lookup k := by
        rw [← Store.slotOf?, Store.slotOf?_without, if_neg hk, Store.slotOf?]
      have other : (k == key) = false := beq_eq_false_iff_ne.2 hk
      rw [there]
      cases hs : s.index.lookup k with
      | none => simp [List.lookup_cons, other]
      | some i =>
          obtain ⟨hl, only⟩ := once k i hs
          have hi : i ≠ id := fun same => hk (only same)
          simp [renumber_of_lt hi hl]

/-- Everything that the clients of a machine know stays where it is. -/
theorem Machine.Reaches.fixed (reach : (Machine.start setting jobs).Reaches m) {id : SlotId}
    (vacant : (m.store.slot id).entry = none) (unseen : m.history.Unseen id) (c : ClientId) :
    Layers.Fix (fun _ => renumber id m.store.slots.length) m.store (m.history.deeds c) := by
  obtain ⟨_, _, dated⟩ := reach.dated
  refine ⟨fun _ i there => ?_, fun _ own there slot n found => ?_⟩
  · refine renumber_of_lt ?_ ?_
    · rintro rfl
      simp [vacant] at there
    · by_contra hl
      rw [Store.slot_of_length_le _ (Nat.le_of_not_lt hl)] at there
      cases there
  · have ho := List.mem_of_getElem? there
    refine renumber_of_lt ?_ ?_
    · rintro rfl
      exact unseen c own ho n found
    · have made := dated.looked c own ho slot n found
      rw [← dated.length]
      exact (List.getElem?_eq_some_iff.1 made).1

/-- The claim of the key renames slots. -/
theorem Machine.Twin.of_claim {key : Key} {id : SlotId}
    (reach : (Machine.start setting jobs).Reaches m) (indexed : m.store.slotOf? key = some id)
    (vacant : (m.store.slot id).entry = none) (unseen : m.history.Unseen id) {trail : Trail}
    {next : SlotId → Program (List Reply)}
    (hc : m.clients[c]? = some ⟨trail, .step (.claimSlot key) next⟩) :
    ∃ m₁ m₁', m.step c = some m₁ ∧ (m.without key).step c = some m₁' ∧
      Machine.Twin setting jobs m₁ m₁' := by
  obtain ⟨keys, calls, conducted, traced⟩ := reach.traced
  obtain ⟨_, _, -, apart⟩ := reach.conducted (J := Indexed) List.nodup_nil (indexed_kept _)
  have tenure := conducted.tenure
  have known := tenure.index key id indexed
  have mirrors := Store.Mirrors.of_claim indexed apart (fun k i hk => by
    have known' := tenure.index k i hk
    refine ⟨tenure.lt_length known', ?_⟩
    rintro rfl
    exact Option.some.inj (known'.symm.trans known))
    (traced.fresh tenure vacant unseen) fun i e he => by
      obtain ⟨_, -, suits⟩ := tenure.entry i e he
      exact suits.slot
  have absent : (m.without key).store.slotOf? key = none := by simp [Machine.without]
  have hp : Action.perform c (.claimSlot key) trail m.store = some (id, trail, m.store) := by
    simp [Action.perform, Store.claim_of_some indexed]
  have hp' : Action.perform c (.claimSlot key) trail (m.without key).store =
      some (m.store.slots.length, trail, ((m.without key).store.claim key).2) := by
    simp only [Action.perform, Store.claim_of_none absent]
    rfl
  have hc' : (m.without key).clients[c]? = some ⟨trail, .step (.claimSlot key) next⟩ := hc
  refine ⟨_, _, Machine.step_eq_some hc hp, Machine.step_eq_some hc' hp', .renamed mirrors ?_ ?_⟩
  · intro d
    have like (client : Client) (hd : m.clients[d]? = some client) :=
      reach.plastic d client hd _ (reach.fixed vacant unseen d)
    by_cases hdc : d = c
    · subst hdc
      rw [List.getElem?_set_self (List.getElem?_eq_some_iff.1 hc).1,
        List.getElem?_set_self (List.getElem?_eq_some_iff.1 hc').1]
      obtain ⟨next', same, goes⟩ := like _ hc
      cases same
      have goes := goes id _ Action.enters_same
      rw [show Action.moveResponse (renumber id m.store.slots.length) (.claimSlot key) id =
        m.store.slots.length from renumber_self] at goes
      exact .some ⟨rfl, goes⟩
    · rw [List.getElem?_set_ne (Ne.symm hdc), List.getElem?_set_ne (Ne.symm hdc)]
      change Option.Rel _ m.clients[d]? m.clients[d]?
      cases hd : m.clients[d]? with
      | none => exact .none
      | some client => exact .some ⟨rfl, like client hd⟩
  · exact rfl

/-- Any other step leaves the key out, until a reset leaves out all keys. -/
theorem Machine.Twin.of_other {key : Key} {id : SlotId}
    (reach : (Machine.start setting jobs).Reaches m) (indexed : m.store.slotOf? key = some id)
    (vacant : (m.store.slot id).entry = none) (unseen : m.history.Unseen id) {trail : Trail}
    {a : Action} {next : a.Response → Program (List Reply)}
    (hc : m.clients[c]? = some ⟨trail, .step a next⟩) (ha : a ≠ .claimSlot key) :
    (m.step c = none ∧ (m.without key).step c = none) ∨
      ∃ m₁ m₁', m.step c = some m₁ ∧ (m.without key).step c = some m₁' ∧
        Machine.Twin setting jobs m₁ m₁' := by
  obtain ⟨keys, calls, conducted, traced⟩ := reach.traced
  obtain ⟨_, _, -, apart⟩ := reach.conducted (J := Indexed) List.nodup_nil (indexed_kept _)
  have absent : m.store.entryOf? key = none := by rw [Store.entryOf?, indexed]; exact vacant
  have hc' : (m.without key).clients[c]? = some ⟨trail, .step a next⟩ := hc
  have hp' := Action.perform_without apart absent ha c trail
  cases hp : a.perform c trail m.store with
  | none =>
      rw [hp] at hp'
      exact .inl ⟨Machine.step_eq_none hc hp, Machine.step_eq_none hc' hp'⟩
  | some found =>
      obtain ⟨r, trail₁, store₁⟩ := found
      rw [hp] at hp'
      have hs := Machine.step_eq_some hc hp
      have hs' := Machine.step_eq_some hc' hp'
      refine .inr ⟨_, _, hs, hs', ?_⟩
      obtain ⟨a', r', calls', keys', taken, history, -⟩ := conducted.step rfl hs (told_plain _)
      cases history
      by_cases clears : a = .clearEntries
      · subst clears
        cases hp
        exact .same
      · exact .lacks (reach.step hs)
          ((Action.perform_slotOf? taken.performs clears).1 key id indexed)
          (taken.vacant_kept traced vacant unseen) (taken.unseen_kept indexed vacant unseen ha)

theorem Machine.Twin.step {m' : Machine} (twin : Machine.Twin setting jobs m m') (c : ClientId) :
    (m.step c = none ∧ m'.step c = none) ∨
      ∃ m₁ m₁', m.step c = some m₁ ∧ m'.step c = some m₁' ∧ Machine.Twin setting jobs m₁ m₁' := by
  cases twin with
  | same =>
      cases hs : m.step c with
      | none => exact .inl ⟨rfl, rfl⟩
      | some m₁ => exact .inr ⟨m₁, m₁, rfl, rfl, .same⟩
  | renamed store clients history => exact Machine.Twin.of_renamed store clients history c
  | @lacks key id reach indexed vacant unseen =>
      have same : (m.without key).clients = m.clients := rfl
      cases hc : m.clients[c]? with
      | none => exact .inl ⟨by simp [Machine.step, hc], by simp [Machine.step, same, hc]⟩
      | some client =>
          obtain ⟨trail, program⟩ := client
          cases program with
          | done => exact .inl ⟨by simp [Machine.step, hc], by simp [Machine.step, same, hc]⟩
          | step a next =>
              by_cases ha : a = .claimSlot key
              · subst ha
                exact .inr (Machine.Twin.of_claim reach indexed vacant unseen hc)
              · exact Machine.Twin.of_other reach indexed vacant unseen hc ha

theorem Machine.Twin.follow {m' : Machine} (twin : Machine.Twin setting jobs m m')
    (order : List ClientId) :
    (m.follow order = none ∧ m'.follow order = none) ∨
      ∃ m₁ m₁', m.follow order = some m₁ ∧ m'.follow order = some m₁' ∧
        Machine.Twin setting jobs m₁ m₁' := by
  induction order generalizing m m' with
  | nil => exact .inr ⟨m, m', rfl, rfl, twin⟩
  | cons c rest ih =>
      simp only [Machine.follow]
      obtain ⟨hs, hs'⟩ | ⟨m₁, m₁', hs, hs', twin⟩ := twin.step c
      · exact .inl ⟨by simp [hs], by simp [hs']⟩
      · simp only [hs, hs', Option.bind_some]
        exact ih twin

theorem Machine.Twin.alike {m' : Machine} (twin : Machine.Twin setting jobs m m') :
    m.Alike m' := by
  cases twin with
  | same => exact ⟨fun _ _ => rfl, fun _ _ => Iff.rfl, rfl, rfl⟩
  | @lacks key id reach indexed vacant unseen =>
      obtain ⟨_, _, -, apart⟩ := reach.conducted (J := Indexed) List.nodup_nil (indexed_kept _)
      have absent : m.store.entryOf? key = none := by rw [Store.entryOf?, indexed]; exact vacant
      exact ⟨fun _ q => Store.answer?_without apart absent q, fun _ _ => Iff.rfl, rfl, rfl⟩
  | renamed store clients history =>
      refine .of_blur (fun _ q => store.answer? q) (fun c replies => ?_) history
      have mine := clients c
      generalize m.clients[c]? = client at mine
      generalize m'.clients[c]? = client' at mine
      cases mine with
      | none => exact Iff.rfl
      | @some client client' follows =>
          obtain ⟨trail, program⟩ := client
          obtain ⟨trail', program'⟩ := client'
          obtain ⟨rfl, like⟩ := follows
          cases program with
          | done replies' =>
              obtain ⟨_, rfl, rfl⟩ := like
              exact Iff.rfl
          | step a next =>
              obtain ⟨next', rfl, -⟩ := like
              simp

theorem Store.without_of_none {s : Store} {key : Key} (absent : s.slotOf? key = none) :
    s.without key = s := by
  have all : s.index.filter (fun p => p.1 ≠ key) = s.index := by
    refine List.filter_eq_self.2 fun p hp => ?_
    obtain ⟨k, id⟩ := p
    have other := List.lookup_eq_none_iff.1 absent (k, id) hp
    exact decide_eq_true (Ne.symm (bne_iff_ne.1 other))
  rw [Store.without, all]

/-- Nobody can tell whether the index has a slot for a key that has no entry, unless a call under
way has looked this slot up. -/
theorem Machine.Reaches.indistinct {key : Key}
    (reach : (Machine.start setting jobs).Reaches m) (vacant : m.store.entryOf? key = none)
    (unseen : ∀ id, m.store.slotOf? key = some id → m.history.Unseen id) :
    m.Indistinct (m.without key) := by
  intro order
  have twin : Machine.Twin setting jobs m (m.without key) := by
    cases indexed : m.store.slotOf? key with
    | none =>
        rw [Machine.without, Store.without_of_none indexed]
        exact .same
    | some id =>
        rw [Store.entryOf?, indexed] at vacant
        exact .lacks reach indexed vacant (unseen id indexed)
  obtain stuck | ⟨m₁, m₁', hs, hs', twin⟩ := twin.follow order
  · exact .inl stuck
  · exact .inr ⟨m₁, m₁', hs, hs', twin.alike⟩

end Twins

end Wiring.Registry
