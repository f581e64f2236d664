import Wiring.Proofs.Registry.Announcing
import Wiring.Proofs.Registry.Generations

/-!
Accounts of registrations. Whenever no client is in the middle of a demand, what an observer was
told to be registered is what is registered, what it was told to have been dropped, and what was
published too late, in a slot that a reset had dropped before.
-/
namespace Wiring.Registry

def Notice.added : Notice → Nat
  | .registered .. => 1
  | _ => 0

def Notice.dropped : Notice → Nat
  | .reset dropped => dropped
  | _ => 0

namespace History

def notices (i : Nat) (h : History) : List Notice :=
  h.events.filterMap fun
    | .observed j notice => if j = i then some notice else none
    | .noted _ => none

def added (i : Nat) (h : History) : Nat := ((h.notices i).map Notice.added).sum

def dropped (i : Nat) (h : History) : Nat := ((h.notices i).map Notice.dropped).sum

/-- How many entries were published in slots of earlier generations, where no key leads to. -/
def late : History → Nat
  | [] => 0
  | ⟨_, .publish slot _, _⟩ :: h =>
      if (eras h)[slot]? = some (resets h) then late h else late h + 1
  | _ :: h => late h

/-- The notices that steps have called for, the latest first, with the clients of the steps. -/
def due : History → List (ClientId × Notice)
  | [] => []
  | ⟨c, a, r⟩ :: h => (a.due r).map (c, ·) ++ due h

/-- The notices brought to observer `i` that count entries, likewise. -/
def brought (i : Nat) : History → List (ClientId × Notice)
  | [] => []
  | ⟨c, a, _⟩ :: h => (a.tells i).map (c, ·) ++ brought i h

end History

section Sums

variable {i : Nat} {h : History}

theorem History.notices_cons (p : Performed) : History.notices i (p :: h) = h.notices i ++
    match p.action with
    | .observe j notice => if j = i then [notice] else []
    | _ => [] := by
  obtain ⟨c, a, r⟩ := p
  cases a with
  | observe j notice =>
      by_cases hj : j = i <;> simp [History.notices, History.events, hj]
  | _ => simp [History.notices, History.events]

theorem Notice.sum_counted {w : Notice → Nat} (silent : ∀ n : Notice, n.counted = [] → w n = 0)
    (n : Notice) : (n.counted.map w).sum = w n := by
  cases n with
  | registered | reset => simp [Notice.counted]
  | producing | produced | failed => exact (silent _ rfl).symm

/-- Notices that count no entries add nothing. -/
theorem History.sum_notices {w : Notice → Nat}
    (silent : ∀ n : Notice, n.counted = [] → w n = 0) (h : History) :
    ((h.notices i).map w).sum = ((h.brought i).map fun x => w x.2).sum := by
  induction h with
  | nil => rfl
  | cons p h ih =>
      rw [History.notices_cons, List.map_append, List.sum_append, ih, Nat.add_comm]
      obtain ⟨c, a, r⟩ := p
      cases a with
      | observe j notice =>
          by_cases hj : j = i
          · simp [History.brought, Action.tells, hj, Notice.sum_counted silent,
              Function.comp_def]
          · simp [History.brought, Action.tells, hj]
      | _ => simp [History.brought, Action.tells]

theorem History.sum_due (w : Notice → Nat) {c : ClientId} {a : Action} {r : a.Response} :
    ((History.due (⟨c, a, r⟩ :: h)).map fun x => w x.2).sum =
      ((a.due r).map w).sum + (h.due.map fun x => w x.2).sum := by
  rw [History.due, List.map_append, List.sum_append, List.map_map]
  rfl

end Sums

section Counting

variable {s s' : Store}

theorem Store.exists_keys (apart : (s.index.map Prod.fst).Nodup) :
    ∃ keys : List Key, keys.Nodup ∧ (∀ key, key ∈ keys ↔ (s.entryOf? key).isSome) ∧
      s.registered = keys.length := by
  obtain ⟨keys, nodup, mem, length⟩ := Store.registered_eq apart
  exact ⟨keys, nodup, fun key => (mem key).trans Store.stateOf_ne_iff, length⟩

theorem Store.registered_same (apart : (s.index.map Prod.fst).Nodup)
    (apart' : (s'.index.map Prod.fst).Nodup) (same : ∀ key, s'.entryOf? key = s.entryOf? key) :
    s'.registered = s.registered := by
  obtain ⟨keys, nodup, mem, length⟩ := Store.exists_keys apart
  obtain ⟨keys', nodup', mem', length'⟩ := Store.exists_keys apart'
  rw [length, length']
  refine ((List.perm_ext_iff_of_nodup nodup' nodup).2 fun key => ?_).length_eq
  rw [mem, mem', same]

theorem Store.registered_succ (apart : (s.index.map Prod.fst).Nodup)
    (apart' : (s'.index.map Prod.fst).Nodup) {key : Key} (absent : s.entryOf? key = none)
    (present : (s'.entryOf? key).isSome)
    (others : ∀ k, k ≠ key → s'.entryOf? k = s.entryOf? k) :
    s'.registered = s.registered + 1 := by
  obtain ⟨keys, nodup, mem, length⟩ := Store.exists_keys apart
  obtain ⟨keys', nodup', mem', length'⟩ := Store.exists_keys apart'
  have new : key ∉ keys := by simp [mem, absent]
  rw [length, length', ← List.length_cons (a := key)]
  refine ((List.perm_ext_iff_of_nodup nodup' (nodup.cons new)).2 fun k => ?_).length_eq
  rw [mem', List.mem_cons, mem]
  by_cases hk : k = key
  · simp [hk, present]
  · simp [hk, others k hk]

end Counting

theorem History.eras_le {h : History} : ∀ n ∈ h.eras, n ≤ h.resets := by
  induction h with
  | nil => simp [History.eras]
  | cons p h ih =>
      intro n hn
      have grown := (History.resets_cons p h).1
      obtain ⟨c, a, r⟩ := p
      cases a with
      | claimSlot key =>
          rw [History.eras] at hn
          split at hn
          · obtain old | new := List.mem_append.1 hn
            · exact Nat.le_trans (ih n old) grown
            · rw [List.mem_singleton.1 new]
              exact grown
          · exact Nat.le_trans (ih n hn) grown
      | _ => exact Nat.le_trans (ih n hn) grown

namespace Taken

variable {terms : Terms} {keys : List Key} {calls : ClientId → List Call} {s : Store}
  {c : ClientId} {a : Action} {r : a.Response} {calls' : List Call} {keys' : List Key} {s' : Store}
  {h : History}

/-- What is registered changes where an entry is published or the registry is reset. -/
theorem entryOf?_quiet (taken : Taken terms keys calls s c a r calls' keys' s')
    (calm : a ≠ .clearEntries) (quiet : ∀ slot e, a ≠ .publish slot e) (key : Key) :
    s'.entryOf? key = s.entryOf? key := by
  have entry := Action.perform_entry taken.performs quiet
  cases hs : s.slotOf? key with
  | some id =>
      have hs' := (Action.perform_slotOf? taken.performs calm).1 key id hs
      simp only [Store.entryOf?, hs, hs', Option.bind_some, entry]
  | none =>
      simp only [Store.entryOf?, hs, Option.bind_none]
      cases hs' : s'.slotOf? key with
      | none => rfl
      | some id =>
          obtain ⟨-, there | ⟨-, rfl, -⟩⟩ := Action.slotOf?_cases taken.performs hs'
          · cases hs.symm.trans there
          · rw [Option.bind_some, entry, s.slot_of_length_le (Nat.le_refl _)]
            rfl

/-- An entry is registered by its publication if its key leads to its slot. -/
theorem entryOf?_published {slot : SlotId} {e r : Entry}
    (taken : Taken terms keys calls s c (.publish slot e) r calls' keys' s') (key : Key) :
    s'.entryOf? key = if s.slotOf? key = some slot then some e else s.entryOf? key := by
  obtain ⟨-, hk, rfl⟩ := taken.publish
  simp only [Store.entryOf?, Store.slotOf?_update]
  cases hs : s.slotOf? key with
  | none => simp
  | some id =>
      by_cases hid : id = slot
      · subst hid
        simp [Store.slot_update s (taken.before.lt_length hk)]
      · simp [hid, Store.slot_update_of_ne s hid]

theorem key_of_slot {slot : SlotId} {e r : Entry}
    (taken : Taken terms keys calls s c (.publish slot e) r calls' keys' s') {key : Key}
    (hs : s.slotOf? key = some slot) : key = e.key :=
  Option.some.inj ((taken.before.index key slot hs).symm.trans taken.publish.2.1)

end Taken

def Current (_ : List Key) (_ : ClientId → List Call) (s : Store) (h : History) : Prop :=
  ∀ id, h.eras[id]? = some h.resets → ∃ key, s.slotOf? key = some id

structure Balanced (keys : List Key) (calls : ClientId → List Call) (s : Store) (h : History) :
    Prop where
  dated : Dated keys calls s h
  indexed : Indexed keys calls s h
  current : Current keys calls s h
  balance : (h.due.map fun x => x.2.added).sum =
    s.registered + (h.due.map fun x => x.2.dropped).sum + h.late

theorem balanced_start : Balanced [] (fun _ => []) .empty [] where
  dated := dated_start
  indexed := List.nodup_nil
  current id h := by cases h
  balance := rfl

section Kept

variable {terms : Terms} {keys : List Key} {calls : ClientId → List Call} {s : Store}
  {c : ClientId} {a : Action} {r : a.Response} {calls' : List Call} {keys' : List Key} {s' : Store}
  {h : History}

theorem current_step (taken : Taken terms keys calls s c a r calls' keys' s')
    (dated : Dated keys calls s h) (old : Current keys calls s h) :
    Current keys' (Function.update calls c calls') s' (⟨c, a, r⟩ :: h) := by
  intro id hid
  obtain ⟨grown, quiet⟩ := History.resets_cons ⟨c, a, r⟩ h
  by_cases calm : a = .clearEntries
  · subst calm
    have early := History.eras_le (h := h) _ (List.mem_of_getElem? hid)
    exact absurd early (Nat.not_le.2 (Nat.lt_succ_self _))
  · rw [quiet.2 calm] at hid
    obtain ⟨more, eq⟩ := History.eras_cons ⟨c, a, r⟩ h
    obtain ⟨stays, found⟩ := Action.perform_slotOf? taken.performs calm
    by_cases before : id < s.slots.length
    · rw [← dated.length] at before
      rw [← eq, List.getElem?_append_left before] at hid
      obtain ⟨key, hk⟩ := old id hid
      exact ⟨key, stays key id hk⟩
    · have now := (List.getElem?_eq_some_iff.1 hid).1
      rw [taken.eras_length dated.length] at now
      exact found id (Nat.le_of_not_lt before) now

/-- A slot is one of this generation if the key of what is published there leads to it. -/
theorem Taken.timely_iff {slot : SlotId} {e r : Entry}
    (taken : Taken terms keys calls s c (.publish slot e) r calls' keys' s')
    (dated : Dated keys calls s h) (current : Current keys calls s h) :
    h.eras[slot]? = some h.resets ↔ s.slotOf? e.key = some slot := by
  constructor
  · intro now
    obtain ⟨key, hk⟩ := current slot now
    rwa [taken.key_of_slot hk] at hk
  · exact dated.index e.key slot

theorem balance_publish {slot : SlotId} {e r : Entry}
    (taken : Taken terms keys calls s c (.publish slot e) r calls' keys' s')
    (old : Balanced keys calls s h) (apart' : (s'.index.map Prod.fst).Nodup) :
    s'.registered + History.late (⟨c, .publish slot e, r⟩ :: h) = s.registered + h.late + 1 := by
  rw [History.late, if_congr (taken.timely_iff old.dated old.current) rfl rfl]
  split
  · next timely =>
      have absent : s.entryOf? e.key = none := by
        rw [Store.entryOf?, timely, Option.bind_some, taken.publish.1]
      have present : (s'.entryOf? e.key).isSome := by
        rw [taken.entryOf?_published, if_pos timely]
        rfl
      have others (k : Key) (hk : k ≠ e.key) : s'.entryOf? k = s.entryOf? k := by
        rw [taken.entryOf?_published, if_neg fun hs => hk (taken.key_of_slot hs)]
      rw [Store.registered_succ old.indexed apart' absent present others]
      omega
  · next late =>
      have same (k : Key) : s'.entryOf? k = s.entryOf? k := by
        rw [taken.entryOf?_published, if_neg]
        intro hs
        obtain rfl := taken.key_of_slot hs
        exact late hs
      rw [Store.registered_same old.indexed apart' same]
      omega

end Kept

theorem balanced_kept (terms : Terms) : Kept terms Balanced := by
  intro keys calls s c a r calls' keys' s' h taken old
  have indexed := indexed_kept terms taken old.indexed
  refine ⟨dated_kept terms taken old.dated, indexed, current_step taken old.dated old.current, ?_⟩
  have balance := old.balance
  cases a with
  | publish slot e =>
      have change := balance_publish taken old indexed
      have added : ((Action.due (.publish slot e) r).map Notice.added).sum = 1 := rfl
      have dropped : ((Action.due (.publish slot e) r).map Notice.dropped).sum = 0 := rfl
      rw [History.sum_due, History.sum_due, added, dropped]
      omega
  | clearEntries =>
      have hp := taken.performs
      simp only [Action.perform, Option.some.injEq, Prod.mk.injEq] at hp
      obtain ⟨rfl, -, rfl⟩ := hp
      have cleared : ({ s with index := [] } : Store).registered = 0 := rfl
      have added : ((Action.due .clearEntries s.registered).map Notice.added).sum = 0 := rfl
      have dropped : ((Action.due .clearEntries s.registered).map Notice.dropped).sum =
        s.registered := rfl
      have late : History.late (⟨c, .clearEntries, s.registered⟩ :: h) = h.late := rfl
      rw [History.sum_due, History.sum_due, added, dropped, cleared, late]
      omega
  | _ =>
      have same := Store.registered_same old.indexed indexed
        (taken.entryOf?_quiet (fun h => by cases h) fun _ _ h => by cases h)
      simpa [History.due, Action.due, History.late, same] using balance

/-- Every client has brought observer `i` the notices of its steps, but for those that it is still
to bring. -/
def Machine.Settled (m : Machine) (i : Nat) : Prop :=
  ∀ c, ∃ owed : List Notice,
    (m.history.due.filter fun x => x.1 = c) =
      owed.map (c, ·) ++ (m.history.brought i).filter (fun x => x.1 = c) ∧
    match m.clients[c]? with
    | some client => client.program.Settles i owed []
    | none => owed = []

theorem filter_pairs {α : Type} (c d : ClientId) (l : List α) :
    ((l.map fun x => (d, x)).filter fun x => x.1 = c) =
      if d = c then l.map fun x => (c, x) else [] := by
  by_cases hd : d = c
  · subst hd
    simp
  · simp [hd]

section Settled

variable {setting : Setting} {jobs : List (List Demand)} {m : Machine} {i : Nat}

theorem Machine.settled_start (hi : i < setting.observers) :
    (Machine.start setting jobs).Settled i := by
  intro c
  refine ⟨[], rfl, ?_⟩
  simp only [Machine.start, List.getElem?_map]
  cases jobs[c]? with
  | none => trivial
  | some demands => exact Program.settles_work hi demands

theorem Machine.Settled.step {m' : Machine} {c : ClientId} (settled : m.Settled i)
    (hs : m.step c = some m') : m'.Settled i := by
  obtain ⟨trail, a, next, r, trail', store, hc, hp, rfl⟩ := Machine.step_cases hs
  intro d
  obtain ⟨owed, balance, rest⟩ := settled d
  simp only [History.due, History.brought, List.filter_append, filter_pairs]
  by_cases hd : c = d
  · subst hd
    rw [hc] at rest
    obtain ⟨owed', settles, rest⟩ := rest r
    refine ⟨owed', ?_, ?_⟩
    · rw [if_pos rfl, if_pos rfl, balance, ← List.append_assoc, ← List.append_assoc,
        ← List.map_append, ← List.map_append, settles]
    · rw [List.getElem?_set_self (List.getElem?_eq_some_iff.1 hc).1]
      exact rest
  · refine ⟨owed, ?_, ?_⟩
    · rw [if_neg hd, if_neg hd, List.nil_append, List.nil_append, balance]
    · rw [List.getElem?_set_ne hd]
      exact rest

theorem Machine.Reaches.settled (reach : (Machine.start setting jobs).Reaches m)
    (hi : i < setting.observers) : m.Settled i := by
  induction reach with
  | start => exact Machine.settled_start hi
  | step _ hs ih => exact ih.step hs

end Settled

/-- All clients are between two of their demands, or have made them all. -/
def Machine.AtRest (m : Machine) (setting : Setting) : Prop :=
  ∀ client ∈ m.clients, ∃ replies demands,
    client.program = (replies ++ ·) <$> work setting demands

theorem Machine.atRest_of_finished {m : Machine} {setting : Setting}
    (finished : ∀ client ∈ m.clients, client.Finished) : m.AtRest setting := by
  intro client hc
  obtain ⟨replies, done⟩ := finished client hc
  refine ⟨replies, [], done.trans ?_⟩
  exact congrArg Program.done (List.append_nil replies).symm

theorem perm_of_parts {l l' : List (ClientId × Notice)}
    (same : ∀ c, (l.filter fun x => x.1 = c) = l'.filter fun x => x.1 = c) : l.Perm l' := by
  classical
  rw [List.perm_iff_count]
  intro x
  have counted (l : List (ClientId × Notice)) : (l.filter fun y => y.1 = x.1).count x = l.count x :=
    List.count_filter (decide_eq_true rfl)
  rw [← counted l, same, counted l']

theorem Machine.Settled.perm {m : Machine} {setting : Setting} {i : Nat} (settled : m.Settled i)
    (hi : i < setting.observers) (rest : m.AtRest setting) :
    m.history.due.Perm (m.history.brought i) := by
  refine perm_of_parts fun c => ?_
  obtain ⟨owed, balance, left⟩ := settled c
  have none : owed = [] := by
    split at left
    · next client hc =>
        obtain ⟨replies, demands, same⟩ := rest client (List.mem_of_getElem? hc)
        rw [same] at left
        exact left.unique ((Program.settles_work hi demands).return (replies ++ ·))
    · exact left
  rw [balance, none]
  rfl

structure Machine.Accounted (m : Machine) (setting : Setting) : Prop where
  /-- What a client tells an observer of entries that come and go is what it has done, in order. -/
  told : ∀ i < setting.observers, ∀ c,
    (m.history.brought i).filter (fun x => x.1 = c) <:+ m.history.due.filter fun x => x.1 = c
  rest : m.AtRest setting → ∀ i < setting.observers,
    m.history.added i = m.store.registered + m.history.dropped i + m.history.late
  /-- What an observer can work out is right as long as nothing was published too late. -/
  exact : m.AtRest setting → ∀ i < setting.observers,
    ((m.history.added i : Int) - m.history.dropped i = m.store.registered ↔ m.history.late = 0)
  /-- A publication registers its key, unless the registry was reset since its call looked the slot
  up: then it comes too late, and nothing is registered. -/
  published : ∀ c m' slot e r, m.step c = some m' →
    m'.history = ⟨c, .publish slot e, r⟩ :: m.history →
      m'.history.due = (c, .registered e.key e.policy) :: m.history.due ∧
      ∃ n, m.history.Looked c slot n ∧
        (n = m.history.resets → m'.history.late = m.history.late ∧
          m.store.stateOf e.key = .unregistered ∧ m'.store.entryOf? e.key = some e) ∧
        (n ≠ m.history.resets → m'.history.late = m.history.late + 1 ∧
          ∀ key, m'.store.entryOf? key = m.store.entryOf? key)
  /-- A reset reports all that is registered, and leaves nothing. -/
  cleared : ∀ c m' dropped, m.step c = some m' →
    m'.history = ⟨c, .clearEntries, dropped⟩ :: m.history →
      m'.history.due = (c, .reset dropped) :: m.history.due ∧
        dropped = m.store.registered ∧ m'.store.registered = 0

section Reached

variable {setting : Setting} {jobs : List (List Demand)} {m m' : Machine} {c : ClientId}

theorem Notice.added_of_uncounted : (n : Notice) → n.counted = [] → n.added = 0
  | .producing _, _ | .produced _, _ | .failed .., _ => rfl

theorem Notice.dropped_of_uncounted : (n : Notice) → n.counted = [] → n.dropped = 0
  | .producing _, _ | .produced _, _ | .failed .., _ => rfl

theorem Machine.Reaches.balance (reach : (Machine.start setting jobs).Reaches m)
    (rest : m.AtRest setting) {i : Nat} (hi : i < setting.observers) :
    m.history.added i = m.store.registered + m.history.dropped i + m.history.late := by
  obtain ⟨_, _, -, balanced⟩ := reach.conducted balanced_start (balanced_kept _)
  have perm := (reach.settled hi).perm hi rest
  have added : m.history.added i = (m.history.due.map fun x => x.2.added).sum := by
    rw [History.added, History.sum_notices Notice.added_of_uncounted]
    exact ((perm.map _).sum_nat).symm
  have dropped : m.history.dropped i = (m.history.due.map fun x => x.2.dropped).sum := by
    rw [History.dropped, History.sum_notices Notice.dropped_of_uncounted]
    exact ((perm.map _).sum_nat).symm
  rw [added, dropped, balanced.balance]

theorem Machine.Reaches.step_taken (reach : (Machine.start setting jobs).Reaches m)
    (hs : m.step c = some m') {a : Action} {r : a.Response}
    (history : m'.history = ⟨c, a, r⟩ :: m.history) :
    ∃ keys calls calls' keys', Balanced keys calls m.store m.history ∧
      Taken (.plain setting.observers none) keys calls m.store c a r calls' keys' m'.store := by
  obtain ⟨keys, calls, conducted, balanced⟩ := reach.conducted balanced_start (balanced_kept _)
  obtain ⟨a', r', calls', keys', taken, same, -⟩ := conducted.step rfl hs (told_plain _)
  cases history.symm.trans same
  exact ⟨keys, calls, calls', keys', balanced, taken⟩

theorem Machine.Reaches.timely (reach : (Machine.start setting jobs).Reaches m)
    (hs : m.step c = some m') {slot : SlotId} {e r : Entry}
    (history : m'.history = ⟨c, .publish slot e, r⟩ :: m.history) :
    ∃ n, m.history.Looked c slot n ∧
      (n = m.history.resets → m'.history.late = m.history.late ∧
        m.store.stateOf e.key = .unregistered ∧ m'.store.entryOf? e.key = some e) ∧
      (n ≠ m.history.resets → m'.history.late = m.history.late + 1 ∧
        ∀ key, m'.store.entryOf? key = m.store.entryOf? key) := by
  obtain ⟨keys, calls, calls', keys', balanced, taken⟩ := reach.step_taken hs history
  have there : ⟨c, .publish slot e, r⟩ :: m.history <:+ m'.history := by
    rw [history]
  obtain ⟨n, own, ho, found⟩ := (reach.step hs).works there rfl
  have era := balanced.dated.looked c own (List.mem_of_mem_head? ho) slot n found
  have timely := taken.timely_iff balanced.dated balanced.current
  rw [era, Option.some.injEq] at timely
  have late : m'.history.late =
      if n = m.history.resets then m.history.late else m.history.late + 1 := by
    rw [history, History.late, era]
    simp only [Option.some.injEq]
  refine ⟨n, ⟨own, ho, found⟩, fun now => ?_, fun before => ?_⟩
  · have there := timely.1 now
    refine ⟨by rw [late, if_pos now], ?_, by rw [taken.entryOf?_published, if_pos there]⟩
    have absent : m.store.entryOf? e.key = none := by
      rw [Store.entryOf?, there, Option.bind_some, taken.publish.1]
    simp only [Store.stateOf, absent]
  · refine ⟨by rw [late, if_neg before], fun key => ?_⟩
    rw [taken.entryOf?_published, if_neg]
    intro there
    obtain rfl := taken.key_of_slot there
    exact before (timely.2 there)

theorem Machine.cleared {dropped : Nat} (hs : m.step c = some m')
    (history : m'.history = ⟨c, .clearEntries, dropped⟩ :: m.history) :
    dropped = m.store.registered ∧ m'.store.registered = 0 := by
  obtain ⟨trail, a, next, r, trail', store, -, hp, rfl⟩ := Machine.step_cases hs
  cases history
  simp only [Action.perform, Option.some.injEq, Prod.mk.injEq] at hp
  obtain ⟨rfl, -, rfl⟩ := hp
  exact ⟨rfl, rfl⟩

/-- Registrations are accounted for in every run, whatever producers and clients reset. -/
theorem registrations_accounted (reach : (Machine.start setting jobs).Reaches m) :
    m.Accounted setting := by
  refine ⟨fun i hi c => ?_, fun rest i hi => reach.balance rest hi, fun rest i hi => ?_, ?_, ?_⟩
  · obtain ⟨owed, balance, -⟩ := reach.settled hi c
    exact ⟨_, balance.symm⟩
  · have balance := reach.balance rest hi
    omega
  · intro c m' slot e r hs history
    exact ⟨by rw [history]; rfl, reach.timely hs history⟩
  · intro c m' dropped hs history
    exact ⟨by rw [history]; rfl, Machine.cleared hs history⟩

end Reached

instance (client : Client) : Decidable client.Finished :=
  match h : client.program with
  | .done replies => isTrue ⟨replies, h⟩
  | .step .. => isFalse fun ⟨_, done⟩ => by cases h.symm.trans done

def gaugeKey : Key := ⟨"app::Gauge", "Gauge"⟩

def gaugeSetting : Setting where
  observers := 1
  accessor _ := ⟨.factory, fun _ _ => .finish (.ok ⟨none, []⟩)⟩

def gaugeDemand (policy : Policy) (resets : Bool) : Demand where
  request := .inl (.register gaugeKey policy fun _ =>
    if resets then .call .reset fun _ => .finish (.ok ⟨none, []⟩) else .finish (.ok ⟨none, []⟩))
  context := .plain

/-- The producer resets the registry in the middle of the registration that it is run for. The
observer is told of a gauge and of a reset that dropped nothing, and nothing is registered. -/
theorem gauge_is_told_and_not_registered :
    ∃ m, (Machine.start gaugeSetting [[gaugeDemand .singleton true]]).Reaches m ∧
      m.AtRest gaugeSetting ∧
        ((m.history.added 0 : Int) - m.history.dropped 0 ≠ m.store.registered) := by
  obtain ⟨m, reach, finished, unequal⟩ := Machine.exists_of_follow
    (m := Machine.start gaugeSetting [[gaugeDemand .singleton true]]) (List.replicate 16 0)
    (P := fun m => (∀ client ∈ m.clients, client.Finished) ∧
      (m.history.added 0 : Int) - m.history.dropped 0 ≠ m.store.registered) (by decide +kernel)
  exact ⟨m, reach, Machine.atRest_of_finished finished, unequal⟩

/-- A client registers a gauge twice, and another one resets the registry after the first of the two
has looked its slot up. -/
theorem gauge_is_accounted_for :
    ∃ m, (Machine.start gaugeSetting
        [[gaugeDemand .factory false, gaugeDemand .factory false],
          [⟨.inl .reset, .plain⟩]]).Reaches m ∧
      m.AtRest gaugeSetting ∧ m.history.added 0 = 2 ∧ m.store.registered = 1 ∧
        m.history.late = 1 ∧ m.Accounted gaugeSetting := by
  obtain ⟨m, reach, finished, added, registered, late⟩ := Machine.exists_of_follow
    (m := Machine.start gaugeSetting
      [[gaugeDemand .factory false, gaugeDemand .factory false], [⟨.inl .reset, .plain⟩]])
    (List.replicate 5 0 ++ List.replicate 2 1 ++ List.replicate 23 0)
    (P := fun m => (∀ client ∈ m.clients, client.Finished) ∧ m.history.added 0 = 2 ∧
      m.store.registered = 1 ∧ m.history.late = 1) (by decide +kernel)
  exact ⟨m, reach, Machine.atRest_of_finished finished, added, registered, late,
    registrations_accounted reach⟩

end Wiring.Registry
