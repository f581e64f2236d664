import Wiring.Proofs.Registry.Provenance
import Mathlib.Data.List.Nodup

/-!
The states of entries. The state of a key is read off its entry and its cell, in agreement with the
policy of the entry, and the keys that have an entry are counted once each. Between two resets an
entry stays and a full cell stays full, so the state of a key can go forward in two ways alone.
-/
namespace Wiring.Registry

namespace Store

def policyOf (s : Store) (key : Key) : Option Policy := (s.entryOf? key).map Entry.policy

def cachedOf? (s : Store) (key : Key) : Option Instance :=
  (s.entryOf? key).bind fun e => (s.slot e.slot).cell.instance?

def stateOf (s : Store) (key : Key) : EntryState :=
  match s.entryOf? key with
  | none => .unregistered
  | some e =>
      match e.resolution with
      | .factory _ | .singleton _ | .lazySingleton _ => .registeredSync
      | .factoryAsync _ => .asyncPending
      | .singletonAsync _ => .asyncResolved
      | .lazySingletonAsync _ =>
          if (s.slot e.slot).cell.instance?.isSome then .asyncResolved else .asyncPending

def answer? (s : Store) : {m : Mode} → Request m → Option Reply
  | _, .state key => some (.state (s.stateOf key))
  | _, .policyOf key => some (.policy (s.policyOf key))
  | _, .contains key => some (.flag (s.entryOf? key).isSome)
  | _, .len => some (.count s.registered)
  | _, .isEmpty => some (.flag (s.registered == 0))
  | _, .describe => some (.text (description s.registered))
  | _, _ => none

end Store

section Questions

theorem Program.run_bind {α β : Type} (p : Program α) (f : α → Program β) (me : ClientId)
    (w : Situation) : (p >>= f).run me w = (p.run me w).bind fun x => (f x.1).run me x.2 := by
  induction p generalizing w with
  | done a => rfl
  | step a next ih =>
      change ((Program.step a next).bind f).run me w = _
      simp only [Program.bind, Program.run]
      cases Program.advance me a w with
      | none => rfl
      | some x => exact ih x.1 x.2

variable {setting : Setting} {runner : Runner} {runtime : Runtime} {me : ClientId}

theorem run_stateOf (key : Key) (w : Situation) :
    ∃ h, (Program.stateOf key).run me w =
      some (w.store.stateOf key, { w with history := h }) := by
  cases he : w.store.entryOf? key with
  | none =>
      refine ⟨⟨me, .findEntry key, none⟩ :: w.history, ?_⟩
      simp only [Store.stateOf, he]
      simp [Program.stateOf, Program.perform, Program.run, Program.advance, Action.perform, he,
        Program.bind, bind, pure]
  | some e =>
      cases hr : e.resolution with
      | lazySingletonAsync p =>
          refine ⟨⟨me, .readCell e.slot, (w.store.slot e.slot).cell.instance?⟩ ::
            ⟨me, .findEntry key, some e⟩ :: w.history, ?_⟩
          cases hc : (w.store.slot e.slot).cell <;>
            simp [Store.stateOf, Program.stateOf, Program.perform, Program.run, Program.advance,
              Action.perform, he, hr, hc, Cell.instance?, Program.bind, bind, pure]
      | _ =>
          refine ⟨⟨me, .findEntry key, some e⟩ :: w.history, ?_⟩
          simp [Store.stateOf, Program.stateOf, Program.perform, Program.run, Program.advance,
            Action.perform, he, hr, Program.bind, bind, pure]

/-- A question that is asked with nobody else at work is answered so, and changes nothing. -/
theorem run_answer {m : Mode} (q : Request m) (w : Situation) {reply : Reply}
    (answer : w.store.answer? q = some reply) :
    ∃ h, (q.program setting runner runtime).run me w = some (reply, { w with history := h }) := by
  cases q with
  | state key =>
      cases answer
      obtain ⟨h, run⟩ := @run_stateOf me key w
      refine ⟨h, ?_⟩
      simp only [Request.program]
      rw [Program.run_bind, run]
      rfl
  | policyOf | contains | len | isEmpty | describe =>
      cases answer
      exact ⟨_, rfl⟩
  | _ => cases answer

end Questions

/-- The state of a key agrees with the policy of its entry. -/
structure Store.Classified (s : Store) (key : Key) : Prop where
  unregistered : s.stateOf key = .unregistered ↔ s.policyOf key = none
  contains : (s.entryOf? key).isSome = false ↔ s.policyOf key = none
  sync : s.stateOf key = .registeredSync ↔ ∃ p, s.policyOf key = some p ∧ p.mode = .sync
  pending : s.stateOf key = .asyncPending ↔ s.policyOf key = some .factoryAsync ∨
    s.policyOf key = some .lazySingletonAsync ∧ s.cachedOf? key = none
  resolved : s.stateOf key = .asyncResolved ↔ s.policyOf key = some .singletonAsync ∨
    s.policyOf key = some .lazySingletonAsync ∧ (s.cachedOf? key).isSome

theorem Store.classified {s : Store} {key : Key}
    (sound : ∀ e, s.entryOf? key = some e → e.Sound) : s.Classified key := by
  cases he : s.entryOf? key with
  | none => constructor <;> simp [Store.stateOf, Store.policyOf, Store.cachedOf?, he]
  | some e =>
      have policy := (sound e he).policy
      have known : s.policyOf key = some e.policy := by simp [Store.policyOf, he]
      rw [← policy] at known
      cases hr : e.resolution with
      | lazySingletonAsync p =>
          rw [hr] at known
          cases hc : (s.slot e.slot).cell <;> constructor <;>
            simp [Store.stateOf, Store.cachedOf?, he, hr, hc, known, Resolution.policy, Policy.mode,
              Cell.instance?]
      | _ =>
          rw [hr] at known
          constructor <;>
            simp [Store.stateOf, he, hr, known, Resolution.policy, Policy.mode]

section Counting

theorem mem_iff_lookup {index : List (Key × SlotId)} (apart : (index.map Prod.fst).Nodup)
    {key : Key} {id : SlotId} : (key, id) ∈ index ↔ index.lookup key = some id := by
  induction index with
  | nil => simp
  | cons p index ih =>
      obtain ⟨k, i⟩ := p
      simp only [List.map_cons, List.nodup_cons] at apart
      obtain ⟨new, apart⟩ := apart
      by_cases hk : key = k
      · subst hk
        have absent : (key, id) ∉ index := fun hm => new (List.mem_map_of_mem hm)
        simp [absent, eq_comm]
      · have hb : (key == k) = false := beq_eq_false_iff_ne.2 hk
        simp [List.lookup_cons, hb, hk, ih apart]

theorem Store.nodup_claim {s : Store} (key : Key) (apart : (s.index.map Prod.fst).Nodup) :
    ((s.claim key).2.index.map Prod.fst).Nodup := by
  cases hs : s.slotOf? key with
  | some id => rwa [Store.claim_of_some hs]
  | none =>
      rw [Store.claim_of_none hs]
      simp only [List.map_append, List.map_cons, List.map_nil]
      refine List.Nodup.append apart (List.nodup_singleton _) ?_
      rw [List.disjoint_singleton]
      intro there
      obtain ⟨⟨k, id⟩, hm, rfl⟩ := List.mem_map.1 there
      cases hs.symm.trans ((mem_iff_lookup apart).1 hm)

def Indexed (_ : List Key) (_ : ClientId → List Call) (s : Store) (_ : History) : Prop :=
  (s.index.map Prod.fst).Nodup

theorem indexed_kept (terms : Terms) : Kept terms Indexed := by
  intro keys calls s c a r calls' keys' s' h taken old
  have hp := taken.performs
  cases Action.alters hp with
  | nothing slots index =>
      by_cases ha : a = .clearEntries
      · subst ha
        simp only [Action.perform, Option.some.injEq, Prod.mk.injEq] at hp
        obtain ⟨-, -, rfl⟩ := hp
        exact List.nodup_nil
      · rwa [Indexed, index ha]
  | slot => exact old
  | index => exact Store.nodup_claim _ old

theorem Store.stateOf_ne_iff {s : Store} {key : Key} :
    s.stateOf key ≠ .unregistered ↔ (s.entryOf? key).isSome := by
  unfold Store.stateOf
  cases he : s.entryOf? key with
  | none => simp
  | some e =>
      cases hr : e.resolution with
      | lazySingletonAsync =>
          simp only [hr]
          split <;> simp
      | _ => simp [hr]

/-- The keys that have an entry, each once, and no others, are counted. -/
theorem Store.registered_eq {s : Store} (apart : (s.index.map Prod.fst).Nodup) :
    ∃ keys : List Key, keys.Nodup ∧ (∀ key, key ∈ keys ↔ s.stateOf key ≠ .unregistered) ∧
      s.registered = keys.length := by
  refine ⟨(s.index.filter fun p => (s.slot p.2).entry.isSome).map Prod.fst, ?_, ?_, ?_⟩
  · exact apart.sublist (List.filter_sublist.map _)
  · intro key
    rw [Store.stateOf_ne_iff]
    simp only [List.mem_map, List.mem_filter, Prod.exists, exists_and_right, exists_eq_right,
      mem_iff_lookup apart]
    simp only [Store.entryOf?, Store.slotOf?]
    cases s.index.lookup key <;> simp
  · rw [Store.registered, List.length_map]

theorem Store.registered_congr {s s' : Store} (apart : (s.index.map Prod.fst).Nodup)
    (apart' : (s'.index.map Prod.fst).Nodup) (same : ∀ key, s'.stateOf key = s.stateOf key) :
    s'.registered = s.registered := by
  obtain ⟨keys, nodup, mem, length⟩ := Store.registered_eq apart
  obtain ⟨keys', nodup', mem', length'⟩ := Store.registered_eq apart'
  rw [length, length']
  refine ((List.perm_ext_iff_of_nodup nodup' nodup).2 fun key => ?_).length_eq
  rw [mem, mem', same]

end Counting

/-- Stores with the same entries and the same cached instances answer alike. -/
theorem Store.answer?_congr {s s' : Store} (apart : (s.index.map Prod.fst).Nodup)
    (apart' : (s'.index.map Prod.fst).Nodup) (entry : ∀ key, s'.entryOf? key = s.entryOf? key)
    (cell : ∀ id, (s'.slot id).cell.instance? = (s.slot id).cell.instance?) {m : Mode}
    (q : Request m) : s'.answer? q = s.answer? q := by
  have state (key : Key) : s'.stateOf key = s.stateOf key := by
    simp only [Store.stateOf, entry, cell]
  have count := Store.registered_congr apart apart' state
  cases q <;> simp [Store.answer?, state, Store.policyOf, entry, count]

/-- What becomes of a key while nobody resets the registry: its entry stays, and its state goes
forward once it is registered in one case alone, where an awaited instance is cached. -/
structure Store.Advances (s s' : Store) (key : Key) : Prop where
  entry : ∀ e, s.entryOf? key = some e → s'.entryOf? key = some e
  state : s'.stateOf key = s.stateOf key ∨
    s.stateOf key = .unregistered ∧ s'.stateOf key ≠ .unregistered ∨
      s.stateOf key = .asyncPending ∧ s'.stateOf key = .asyncResolved ∧
        s.policyOf key = some .lazySingletonAsync

theorem Store.advances {s s' : Store} {key : Key}
    (entry : ∀ e, s.entryOf? key = some e → e.Sound ∧ s'.entryOf? key = some e)
    (cell : ∀ id inst, (s.slot id).cell = .full inst → (s'.slot id).cell = .full inst) :
    s.Advances s' key := by
  refine ⟨fun e he => (entry e he).2, ?_⟩
  cases he : s.entryOf? key with
  | none =>
      have absent : s.stateOf key = .unregistered := by simp [Store.stateOf, he]
      by_cases same : s'.stateOf key = .unregistered
      · exact .inl (same.trans absent.symm)
      · exact .inr (.inl ⟨absent, same⟩)
  | some e =>
      obtain ⟨sound, he'⟩ := entry e he
      cases hr : e.resolution with
      | lazySingletonAsync p =>
          have policy : s.policyOf key = some .lazySingletonAsync := by
            simp [Store.policyOf, he, ← sound.policy, hr, Resolution.policy]
          simp only [Store.stateOf, he, he', hr, policy]
          cases hc : (s.slot e.slot).cell with
          | full inst => simp [cell e.slot inst hc, Cell.instance?]
          | empty | filling => cases (s'.slot e.slot).cell <;> simp [Cell.instance?]
      | _ => simp [Store.stateOf, he, he', hr]

/-- What is so of keys and their entries wherever clients get. -/
structure Machine.Orderly (m : Machine) : Prop where
  /-- What the registry is asked is answered from what it holds. -/
  answers : ∀ mode (q : Request mode) reply, m.store.answer? q = some reply →
    ∀ setting runner runtime me t h, ∃ h',
      (q.program setting runner runtime).run me ⟨t, m.store, h⟩ = some (reply, ⟨t, m.store, h'⟩)
  policy : ∀ key e, m.store.entryOf? key = some e → e.key = key ∧ e.resolution.policy = e.policy
  states : ∀ key, m.store.Classified key
  counted : ∃ keys : List Key, keys.Nodup ∧
    (∀ key, key ∈ keys ↔ m.store.stateOf key ≠ .unregistered) ∧
      m.store.registered = keys.length
  stored : ∀ id e inst, (m.store.slot id).entry = some e →
    e.resolution.instance? = some inst ∨ (m.store.slot id).cell = .full inst →
      inst.key = e.key ∧ m.history.Created inst
  returned : ∀ c mode key before inst h,
    ⟨c, .leave mode key before (.ok inst), ()⟩ :: h <:+ m.history →
      inst.key = key ∧ m.history.Created inst
  /-- A call that was let in fails with the error of the run that it has made, or because its key
  has no entry, or because its thread may not wait. -/
  errors : ∀ c mode key before error (h : History),
    ⟨c, .leave mode key before (.error error), ()⟩ :: h <:+ m.history →
      ∃ own, (h.deeds c).head? = some own ∧
        (lookup? own = none ∧ error = .notRegistered key.name ∨
          error = .blockingInAsyncContext key.name ∨ ∃ p, runs own = [(p, .error error)])
  advances : ∀ m', m.Reaches m' → m'.history.resets = m.history.resets →
    ∀ key, m.store.Advances m'.store key

section Reached

variable {setting : Setting} {jobs : List (List Demand)} {m : Machine}

/-- Entries are in order wherever clients get, whatever producers register in the middle of a call
and whichever calls fail. -/
theorem entries_in_order (reach : (Machine.start setting jobs).Reaches m) : m.Orderly := by
  obtain ⟨keys, calls, conducted, traced⟩ := reach.traced
  have tenure := conducted.tenure
  have suits {key : Key} {e : Entry} (he : m.store.entryOf? key = some e) :=
    (Recorded.suits tenure he).1
  refine ⟨?_, ?_, ?_, ?_, ?_, ?_, ?_, ?_⟩
  · intro mode q reply answer setting runner runtime me t h
    exact run_answer q ⟨t, m.store, h⟩ answer
  · intro key e he
    exact ⟨(suits he).key, (suits he).sound.policy⟩
  · intro key
    exact Store.classified fun e he => (suits he).sound
  · obtain ⟨_, _, -, apart⟩ := reach.conducted (J := Indexed) List.nodup_nil (indexed_kept _)
    exact Store.registered_eq apart
  · intro id e inst he kept
    obtain ⟨key, hk, suits⟩ := tenure.entry id e he
    cases kept with
    | inl stored =>
        exact ⟨suits.sound.key inst stored, reach.created (traced.stored id e inst he stored)⟩
    | inr full =>
        have same := (tenure.full_key hk he full).2.2
        exact ⟨same.trans suits.key.symm, reach.created (traced.cached id inst full)⟩
  · intro c mode key before inst h there
    obtain ⟨own, slot, n, -, -, makes, -, same⟩ := reach.returned there
    exact ⟨same, reach.created (makes.mono ((List.suffix_cons _ _).trans there))⟩
  · intro c mode key before error h there
    exact reach.failed there
  · intro m' later calm key
    exact Store.advances
      (fun e he => ⟨(suits he).sound, reach.entryOf?_kept later calm he⟩)
      fun id inst => (reach.slot_kept later id).2 inst

end Reached

def socketKey : Key := ⟨"app::Socket", "Socket"⟩

def tokenKey : Key := ⟨"app::Token", "Token"⟩

def socketSetting : Setting where
  observers := 0
  accessor key :=
    if key = socketKey then ⟨.lazySingletonAsync, fun _ _ => .finish (.ok ⟨none, []⟩)⟩
    else ⟨.singleton, fun _ _ => .finish (.error (.producer "expired"))⟩

def socketJobs : List (List Demand) :=
  [[⟨.inl (.resolve tokenKey), .plain⟩], [⟨.inr (.resolveAsync socketKey), .task⟩]]

def Machine.SocketClosed (m : Machine) : Prop := m.store.stateOf socketKey = .asyncPending

def Machine.SocketOpen (m : Machine) : Prop :=
  m.store.stateOf socketKey = .asyncResolved ∧ m.store.index.length = 2 ∧ m.store.registered = 1

instance (m : Machine) : Decidable m.SocketClosed :=
  inferInstanceAs (Decidable (_ = _))

instance (m : Machine) : Decidable m.SocketOpen :=
  inferInstanceAs (Decidable (_ ∧ _ ∧ _))

theorem socket_opens_in_order :
    ∃ m m', (Machine.start socketSetting socketJobs).Reaches m ∧ m.Orderly ∧ m.SocketClosed ∧
      m.Reaches m' ∧ m'.SocketOpen := by
  obtain ⟨m, reach, closed, opens⟩ := Machine.exists_of_follow
    (m := Machine.start socketSetting socketJobs) (List.replicate 9 0 ++ List.replicate 6 1)
    (P := fun m => m.SocketClosed ∧ (m.follow (List.replicate 5 1)).any fun m' => m'.SocketOpen)
    (by decide +kernel)
  obtain ⟨m', later, opened⟩ := Machine.exists_of_follow _ opens
  exact ⟨m, m', reach, entries_in_order reach, closed, later, opened⟩

end Wiring.Registry
