import Wiring.Proofs.Registry.EntryStates
import Wiring.Proofs.Registry.MutualWait

/-!
Resets. A reset drops all slots from the index and touches none of them, so calls under way go on
with the slots they have found, and calls that come later find slots that were made later. Every
slot belongs to one generation: all that have looked it up did so after the same number of resets,
and what it keeps and what is run for it is theirs alone.
-/
namespace Wiring.Registry

namespace History

/-- The innermost call that client `c` has under way after `h` found `slot`, after `n` resets. -/
def Looked (h : History) (c : ClientId) (slot : SlotId) (n : Nat) : Prop :=
  ∃ own, (h.deeds c).head? = some own ∧ lookup? own = some (slot, n)

/-- How many resets there had been when each slot was made. -/
def eras : History → List Nat
  | [] => []
  | ⟨_, .claimSlot _, id⟩ :: h => if id = (eras h).length then eras h ++ [resets h] else eras h
  | _ :: h => eras h

def minted? : History → Option Nat
  | ⟨_, .endRun .., .ok inst⟩ :: _ => some inst.serial
  | _ => none

end History

theorem History.eras_cons (p : Performed) (h : History) : h.eras <+: History.eras (p :: h) := by
  obtain ⟨c, a, r⟩ := p
  cases a with
  | claimSlot key =>
      rw [History.eras]
      split
      · exact List.prefix_append _ _
      · exact List.prefix_refl _
  | _ => exact List.prefix_refl _

theorem History.eras_mono {h h' : History} (hs : h <:+ h') : h.eras <+: h'.eras := by
  obtain ⟨more, rfl⟩ := hs
  induction more with
  | nil => exact List.prefix_refl _
  | cons p more ih => exact ih.trans (History.eras_cons p _)

/-- Every slot was made in the generation in which it was looked up, and those that the index has
were made in the present one. -/
structure Dated (_ : List Key) (_ : ClientId → List Call) (s : Store) (h : History) : Prop where
  length : h.eras.length = s.slots.length
  index : ∀ key id, s.slotOf? key = some id → h.eras[id]? = some h.resets
  looked : ∀ c, ∀ own ∈ h.deeds c, ∀ slot n, lookup? own = some (slot, n) →
    h.eras[slot]? = some n

theorem dated_start : Dated [] (fun _ => []) .empty [] where
  length := rfl
  index key id h := by simp [Store.slotOf?, Store.empty] at h
  looked := by simp [History.deeds]

namespace Taken

variable {terms : Terms} {keys : List Key} {calls : ClientId → List Call} {s : Store}
  {c : ClientId} {a : Action} {r : a.Response} {calls' : List Call} {keys' : List Key} {s' : Store}
  {h : History}

theorem eras_length (taken : Taken terms keys calls s c a r calls' keys' s')
    (old : h.eras.length = s.slots.length) :
    (History.eras (⟨c, a, r⟩ :: h)).length = s'.slots.length := by
  have hp := taken.performs
  cases a with
  | claimSlot key =>
      simp only [Action.perform, Option.some.injEq, Prod.mk.injEq] at hp
      obtain ⟨rfl, -, rfl⟩ := hp
      cases hk : s.slotOf? key with
      | some id =>
          have lt := taken.before.lt_length (taken.before.index key id hk)
          have apart : id ≠ h.eras.length := Nat.ne_of_lt (old ▸ lt)
          rw [Store.claim_of_some hk, History.eras, if_neg apart, old]
      | none =>
          rw [Store.claim_of_none hk, History.eras, if_pos old.symm]
          simp [old]
  | _ =>
      cases Action.alters hp with
      | nothing slots => rw [slots]; exact old
      | slot => rw [Store.length_update]; exact old

/-- A step that looks a slot up finds it in the index. -/
theorem finds (taken : Taken terms keys calls s c a r calls' keys' s') {slot : SlotId} {n : Nat}
    (looks : History.looks? (⟨c, a, r⟩ :: h) = some (slot, n)) :
    n = h.resets ∧ ∃ key, s'.slotOf? key = some slot := by
  have hp := taken.performs
  cases a with
  | claimSlot key =>
      simp only [Action.perform, Option.some.injEq, Prod.mk.injEq] at hp
      obtain ⟨rfl, -, rfl⟩ := hp
      simp only [History.looks?, Option.some.injEq, Prod.mk.injEq] at looks
      obtain ⟨rfl, rfl⟩ := looks
      exact ⟨rfl, key, Store.slotOf?_claim_found⟩
  | findEntry key =>
      simp only [Action.perform, Option.some.injEq, Prod.mk.injEq] at hp
      obtain ⟨rfl, -, rfl⟩ := hp
      cases he : s.entryOf? key with
      | none => simp [History.looks?, he] at looks
      | some e =>
          simp only [History.looks?, he, Option.some.injEq, Prod.mk.injEq] at looks
          obtain ⟨rfl, rfl⟩ := looks
          have suits := (Recorded.suits taken.before he).1
          obtain ⟨id, hk, he⟩ := Option.bind_eq_some_iff.1 he
          obtain ⟨k, hk', suits'⟩ := taken.before.entry id e he
          exact ⟨rfl, key, suits'.slot ▸ hk⟩
  | _ => cases looks

end Taken

theorem dated_kept (terms : Terms) : Kept terms Dated := by
  intro keys calls s c a r calls' keys' s' h taken old
  have quiet := (History.resets_cons ⟨c, a, r⟩ h).2.2
  have stays {id : SlotId} {n : Nat} (there : h.eras[id]? = some n) :
      (History.eras (⟨c, a, r⟩ :: h))[id]? = some n := by
    obtain ⟨more, eq⟩ := History.eras_cons ⟨c, a, r⟩ h
    rw [← eq, List.getElem?_append_left (List.getElem?_eq_some_iff.1 there).1, there]
  have index {key : Key} {id : SlotId} (hk : s'.slotOf? key = some id) :
      a ≠ .clearEntries ∧ (History.eras (⟨c, a, r⟩ :: h))[id]? = some h.resets := by
    obtain ⟨ha, there | ⟨new, rfl, rfl⟩⟩ := Action.slotOf?_cases taken.performs hk
    · exact ⟨ha, stays (old.index key id there)⟩
    · have hp := taken.performs
      simp only [Action.perform, Option.some.injEq, Prod.mk.injEq] at hp
      obtain ⟨rfl, -, -⟩ := hp
      rw [Store.claim_of_none new, History.eras, if_pos old.length.symm, ← old.length]
      exact ⟨ha, by simp⟩
  have first {slot : SlotId} {n : Nat}
      (found : History.looks? (⟨c, a, r⟩ :: h) = some (slot, n)) :
      (History.eras (⟨c, a, r⟩ :: h))[slot]? = some n := by
    obtain ⟨rfl, key, hk⟩ := taken.finds found
    exact (index hk).2
  refine ⟨taken.eras_length old.length, ?_, ?_⟩
  · intro key id hk
    obtain ⟨ha, there⟩ := index hk
    rw [there, quiet ha]
  · intro me own ho slot n found
    obtain before | rfl | ⟨own, before, rfl⟩ := History.deeds_cases ho
    · exact stays (old.looked me own before slot n found)
    · exact first (by simpa [lookup?_cons, lookup?] using found)
    · rw [lookup?_cons] at found
      cases there : lookup? own with
      | some known =>
          rw [there] at found
          cases found
          exact stays (old.looked me own before slot n there)
      | none =>
          rw [there] at found
          exact first found

/-- No two runs have made instances of one serial number. -/
structure Minted (_ : List Key) (_ : ClientId → List Call) (s : Store) (h : History) : Prop where
  bounded : ∀ x : History, x <:+ h → ∀ n, x.minted? = some n → n ≤ s.made
  once : ∀ x y : History, x <:+ h → y <:+ h → ∀ n, x.minted? = some n → y.minted? = some n → x = y

theorem Action.perform_made {c : ClientId} {t t' : Trail} {s s' : Store} {a : Action}
    {r : a.Response} {h : History} (hp : a.perform c t s = some (r, t', s')) :
    History.minted? (⟨c, a, r⟩ :: h) = none ∧ s'.made = s.made ∨
      History.minted? (⟨c, a, r⟩ :: h) = some s'.made ∧ s'.made = s.made + 1 := by
  have tallies := Action.tallies hp
  cases a with
  | endRun slot key p run outcome =>
      cases outcome <;> cases hp
      · exact .inl ⟨rfl, rfl⟩
      · exact .inr ⟨rfl, rfl⟩
  | _ => exact .inl ⟨rfl, tallies.2.1⟩

theorem minted_start : Minted [] (fun _ => []) .empty [] where
  bounded x hx n hn := by
    cases List.suffix_nil.1 hx
    cases hn
  once x y hx _ n hn := by
    cases List.suffix_nil.1 hx
    cases hn

theorem minted_kept (terms : Terms) : Kept terms Minted := by
  intro keys calls s c a r calls' keys' s' h taken old
  have now := Action.perform_made (h := h) taken.performs
  have grown : s.made ≤ s'.made := by omega
  have later {x : History} {n : Nat} (hx : x <:+ h) (hn : x.minted? = some n) : n ≤ s.made :=
    old.bounded x hx n hn
  refine ⟨fun x hx n hn => ?_, fun x y hx hy n hn hn' => ?_⟩
  · cases List.suffix_cons_iff.1 hx with
    | inl here =>
        subst here
        obtain ⟨none, -⟩ | ⟨some, -⟩ := now
        · cases none.symm.trans hn
        · cases some.symm.trans hn
          exact Nat.le_refl _
    | inr there => exact Nat.le_trans (later there hn) grown
  · have apart {x : History} (hx : x <:+ h) (hn : x.minted? = some n)
        (hn' : History.minted? (⟨c, a, r⟩ :: h) = some n) : False := by
      have low := later hx hn
      obtain ⟨none, -⟩ | ⟨some, high⟩ := now
      · cases none.symm.trans hn'
      · cases some.symm.trans hn'
        omega
    cases List.suffix_cons_iff.1 hx with
    | inl here =>
        subst here
        cases List.suffix_cons_iff.1 hy with
        | inl here => exact here.symm
        | inr there => exact (apart there hn' hn).elim
    | inr before =>
        cases List.suffix_cons_iff.1 hy with
        | inl here =>
            subst here
            exact (apart before hn hn').elim
        | inr there => exact old.once x y before there n hn hn'

section Found

variable {terms : Terms} {keys : List Key} {calls : ClientId → List Call} {s : Store} {h : History}
  {c : ClientId} {call : Call} {rest : List Call}

theorem Traced.top (traced : Traced terms keys calls s h) (hcs : calls c = call :: rest) :
    ∃ own, (h.deeds c).head? = some own ∧ call.Comes terms c own := by
  have shows := traced.shows c
  rw [hcs] at shows
  generalize h.deeds c = ds at shows
  cases shows with
  | cons comes _ => exact ⟨_, rfl, comes⟩

/-- A call works on the slot that it has looked up. -/
theorem Traced.looked (traced : Traced terms keys calls s h) (hcs : calls c = call :: rest)
    {slot : SlotId} (hs : call.stage.slot? = some slot) : ∃ n, h.Looked c slot n := by
  obtain ⟨own, ho, comes⟩ := traced.top hcs
  obtain ⟨n, found⟩ := comes.looked.slot slot hs
  exact ⟨n, own, ho, found⟩

/-- Who works on a slot has a call under way that has come to this slot. -/
theorem Taken.worker {a : Action} {r : a.Response} {calls' : List Call} {keys' : List Key}
    {s' : Store} {slot : SlotId} (taken : Taken terms keys calls s c a r calls' keys' s')
    (ha : a.slot? = some slot) :
    ∃ call rest, calls c = call :: rest ∧ call.stage.slot? = some slot := by
  obtain ⟨call, rest, stage, hcs, -, step⟩ := taken.own ha
  exact ⟨call, rest, hcs, step.slot ha⟩

end Found

section Machines

variable {setting : Setting} {jobs : List (List Demand)} {m : Machine} {c : ClientId}
  {slot : SlotId} {n : Nat}

theorem Machine.Reaches.dated (reach : (Machine.start setting jobs).Reaches m) :
    ∃ keys calls, Dated keys calls m.store m.history := by
  obtain ⟨keys, calls, -, dated⟩ := reach.conducted dated_start (dated_kept _)
  exact ⟨keys, calls, dated⟩

/-- A slot that was looked up at any time was made in the generation in which it was looked up. -/
theorem Machine.Reaches.era (reach : (Machine.start setting jobs).Reaches m) {p : Performed}
    {h : History} (there : p :: h <:+ m.history) (looked : h.Looked c slot n) :
    m.history.eras[slot]? = some n := by
  obtain ⟨m₁, m₂, reach₁, hs, rfl, -, later⟩ :=
    reach.moment there fun early => absurd (List.suffix_nil.1 early) (List.cons_ne_nil _ _)
  obtain ⟨keys, calls, dated⟩ := reach₁.dated
  obtain ⟨own, ho, found⟩ := looked
  have made := dated.looked c own (List.mem_of_mem_head? ho) slot n found
  obtain ⟨more, eq⟩ := History.eras_mono ((List.suffix_cons p _).trans there)
  rw [← eq, List.getElem?_append_left (List.getElem?_eq_some_iff.1 made).1, made]

/-- Two calls that have found one slot have found it in the same generation. -/
theorem Machine.Reaches.same_era (reach : (Machine.start setting jobs).Reaches m)
    {p p' : Performed} {h h' : History} (there : p :: h <:+ m.history)
    (there' : p' :: h' <:+ m.history) {c' : ClientId} {n' : Nat} (looked : h.Looked c slot n)
    (looked' : h'.Looked c' slot n') : n' = n :=
  Option.some.inj ((reach.era there' looked').symm.trans (reach.era there looked))

/-- Every step that works on a slot is one of a call that has looked this slot up. -/
theorem Machine.Reaches.works (reach : (Machine.start setting jobs).Reaches m) {p : Performed}
    {h : History} (there : p :: h <:+ m.history) (hp : p.action.slot? = some slot) :
    ∃ n, h.Looked p.client slot n := by
  obtain ⟨keys, calls, calls', keys', m₁, m₂, -, -, -, rfl, taken, traced⟩ :=
    reach.taken (traced_start _) (traced_kept _) there
  obtain ⟨call, rest, hcs, hs⟩ := taken.worker hp
  exact traced.looked hcs hs

/-- One run alone has made an instance. -/
theorem Machine.Reaches.made_once (reach : (Machine.start setting jobs).Reaches m)
    {x y : History} (hx : x <:+ m.history) (hy : y <:+ m.history) {number : Nat}
    (minted : x.minted? = some number) (minted' : y.minted? = some number) : x = y := by
  obtain ⟨_, _, -, all⟩ := reach.conducted minted_start (minted_kept _)
  exact all.once x y hx hy number minted minted'

theorem History.deeds_other {p : Performed} {h : History} {me : ClientId} (hne : p.client ≠ me) :
    History.deeds me (p :: h) = h.deeds me := by
  obtain ⟨c, a, r⟩ := p
  cases a with
  | enter => cases r <;> simp [History.deeds, show c ≠ me from hne]
  | _ => simp [History.deeds, show c ≠ me from hne]

theorem History.deeds_eq_nil {h : History} {d : ClientId} (others : ∀ p ∈ h, p.client ≠ d) :
    h.deeds d = [] := by
  induction h with
  | nil => rfl
  | cons p h ih =>
      rw [History.deeds_other (others p List.mem_cons_self)]
      exact ih fun q hq => others q (List.mem_cons_of_mem _ hq)

/-- Whoever alone has calls under way can go on until it has made all of its demands. -/
theorem Machine.Reaches.runs_out (reach : (Machine.start setting jobs).Reaches m) {client : Client}
    (hc : m.clients[c]? = some client) (others : ∀ d, d ≠ c → m.history.deeds d = []) :
    ∃ n m' client', m.follow (List.replicate n c) = some m' ∧ m'.clients[c]? = some client' ∧
      client'.Finished := by
  obtain ⟨trail, program⟩ := client
  induction program generalizing m trail with
  | done replies => exact ⟨0, m, _, rfl, hc, replies, rfl⟩
  | step a next ih =>
      obtain ⟨keys, calls, conducted, traced⟩ := reach.traced
      have free : m.step c ≠ none := by
        intro stuck
        obtain ⟨replies, finished⟩ | ⟨d, w⟩ := (conducted.step_eq_none_iff hc).1 stuck
        · cases finished
        · obtain ⟨_, _, -, -, -, x, hx, -⟩ := conducted.held w
          have apart : d ≠ c := fun same => conducted.not_waits_self (same ▸ w)
          have shows := traced.shows d
          rw [others d apart] at shows
          rw [List.forall₂_nil_left_iff.1 shows] at hx
          cases hx
      obtain ⟨m₁, hs⟩ := Option.ne_none_iff_exists'.1 free
      obtain ⟨r, trail', -, hc₁⟩ := Machine.step_self hc hs
      obtain ⟨_, _, a', r', _, _, history, -⟩ := reach.performs hs
      obtain ⟨n, m', client', follows, rest⟩ := ih r (.step reach hs) (fun d hd => by
        rw [history, History.deeds_other (Ne.symm hd), others d hd]) trail' hc₁
      exact ⟨n + 1, m', client', by simp [List.replicate_succ, Machine.follow, hs, follows], rest⟩

theorem Action.holder?_of_slots {s s' : Store} (slots : s'.slots = s.slots) (a : Action) :
    a.holder? s' = a.holder? s := by
  cases a <;> simp only [Action.holder?, Store.slot, slots]

/-- A reset leaves slots alone, and nobody else waits or goes on because of it. -/
theorem Machine.Reaches.cleared (reach : (Machine.start setting jobs).Reaches m) {m' : Machine}
    {dropped : Nat} (hs : m.step c = some m')
    (clears : m'.history = ⟨c, .clearEntries, dropped⟩ :: m.history) :
    m'.store.slots = m.store.slots ∧ (∀ key, m'.store.stateOf key = .unregistered) ∧
      ∀ d, d ≠ c → (m'.step d = none ↔ m.step d = none) := by
  have dropped : m'.store.slots = m.store.slots ∧ m'.store.index = [] := by
    obtain ⟨trail, a, next, r, trail', store, -, hp, rfl⟩ := Machine.step_cases hs
    cases clears
    simp only [Action.perform, Option.some.injEq, Prod.mk.injEq] at hp
    obtain ⟨-, -, rfl⟩ := hp
    exact ⟨rfl, rfl⟩
  obtain ⟨slots, index⟩ := dropped
  refine ⟨slots, fun key => by simp [Store.stateOf, Store.entryOf?, Store.slotOf?, index], ?_⟩
  intro d hd
  obtain ⟨keys, calls, conducted, -⟩ := reach.traced
  obtain ⟨keys', calls', conducted', -⟩ := (reach.step hs).traced
  have same := Machine.step_other hd.symm hs
  have waits (e : ClientId) : m'.WaitsFor d e ↔ m.WaitsFor d e := by
    unfold Machine.WaitsFor Machine.holder?
    rw [same]
    cases hclient : m.clients[d]? with
    | none => rfl
    | some client =>
        obtain ⟨trail, program⟩ := client
        cases program with
        | done => rfl
        | step a next => simp only [Action.holder?_of_slots slots]
  cases hclient : m.clients[d]? with
  | none => simp [Machine.step, hclient, same]
  | some client =>
      rw [conducted.step_eq_none_iff hclient, conducted'.step_eq_none_iff (same.trans hclient)]
      simp only [waits]

/-- What resets leave apart and what they leave alone. -/
structure Machine.Isolates (m : Machine) : Prop where
  /-- An instance that comes back is of the slot that was looked up, and the call that made it had
  looked up this slot in the same generation. -/
  returned : ∀ c mode key before inst (h : History),
    ⟨c, .leave mode key before (.ok inst), ()⟩ :: h <:+ m.history →
      ∃ own slot n, (h.deeds c).head? = some own ∧ lookup? own = some (slot, n) ∧
        (m.store.slot slot).Gives own inst ∧ h.Makes slot inst ∧
          ∀ c' slot' k p run o (h' : History),
            ⟨c', .endRun slot' k p run o, .ok inst⟩ :: h' <:+ m.history →
              slot' = slot ∧ h'.Looked c' slot n
  /-- An error that comes back from a slot is the one of the call's own run there, unless the thread
  may not wait. -/
  failed : ∀ c mode key before error (h : History),
    ⟨c, .leave mode key before (.error error), ()⟩ :: h <:+ m.history →
      ∃ own, (h.deeds c).head? = some own ∧
        (lookup? own = none ∧ error = .notRegistered key.name ∨
          error = .blockingInAsyncContext key.name ∨ ∃ p, runs own = [(p, .error error)])
  /-- A run that begins is one of the producer that was handed to the call, or of an entry that was
  published by a call of the same generation. -/
  begun : ∀ c slot key p run (h : History), ⟨c, .beginRun slot key p, run⟩ :: h <:+ m.history →
    ∃ n, h.Looked c slot n ∧ ((h.active c).head? = some (key, some p) ∨
      ∃ c' e r, ∃ h' : History, ⟨c', .publish slot e, r⟩ :: h' <:+ h ∧
        e.resolution.producer? = some p ∧ h'.Looked c' slot n)
  /-- Whatever a call does to a slot, it does to the slot that it has looked up. -/
  within : ∀ (p : Performed) (h : History) slot, p :: h <:+ m.history →
    p.action.slot? = some slot → ∃ n, h.Looked p.client slot n
  /-- All calls that have found one slot have found it in one generation. -/
  apart : ∀ (p p' : Performed) (h h' : History) c c' slot n n', p :: h <:+ m.history →
    p' :: h' <:+ m.history → h.Looked c slot n → h'.Looked c' slot n' → n' = n
  /-- What is registered was published by a call that looked its slot up after the last reset. -/
  registered : ∀ key e, m.store.entryOf? key = some e → e.key = key ∧
    ∃ c r, ∃ h : History, ⟨c, .publish e.slot e, r⟩ :: h <:+ m.history ∧
      h.Looked c e.slot m.history.resets
  cleared : ∀ c m' dropped, m.step c = some m' →
    m'.history = ⟨c, .clearEntries, dropped⟩ :: m.history →
      m'.store.slots = m.store.slots ∧ (∀ key, m'.store.stateOf key = .unregistered) ∧
        ∀ d, d ≠ c → (m'.step d = none ↔ m.step d = none)
  /-- A client whose calls are the only ones under way, whatever was reset before, goes on to the
  end. -/
  finishes : ∀ c client, m.clients[c]? = some client → (∀ d, d ≠ c → m.history.deeds d = []) →
    ∃ n m' client', m.follow (List.replicate n c) = some m' ∧ m'.clients[c]? = some client' ∧
      client'.Finished

/-- Calls of different generations have nothing to do with each other. -/
theorem generations_isolated (reach : (Machine.start setting jobs).Reaches m) : m.Isolates := by
  refine ⟨?_, fun c mode key before error h => reach.failed, ?_, fun p h slot => reach.works,
    fun p p' h h' c c' slot n n' there there' => reach.same_era there there', ?_,
    fun c m' dropped => reach.cleared, fun c client => reach.runs_out⟩
  · intro c mode key before inst h there
    obtain ⟨own, slot, n, ho, found, makes, gives, -⟩ := reach.returned there
    refine ⟨own, slot, n, ho, found, gives, makes, ?_⟩
    intro c' slot' k p run o h' ends
    obtain ⟨d, o', h₀, made⟩ := makes
    cases reach.made_once ends (made.trans ((List.suffix_cons _ _).trans there)) rfl rfl
    obtain ⟨n', looked⟩ := reach.works ends rfl
    cases reach.same_era there ends ⟨own, ho, found⟩ looked
    exact ⟨rfl, looked⟩
  · intro c slot key p run h there
    obtain ⟨keys, calls, calls', keys', m₁, m₂, -, -, -, rfl, taken, traced⟩ :=
      reach.taken (traced_start _) (traced_kept _) there
    obtain ⟨call, rest, hcs, rfl, hs, how⟩ :=
      taken.runner (.inl rfl) (traced.fits c)
    obtain ⟨n, looked⟩ := traced.looked hcs hs
    refine ⟨n, looked, ?_⟩
    cases how with
    | inl offered =>
        left
        rw [traced.active c, hcs, List.map_cons, List.head?_cons, offered]
    | inr entered =>
        right
        obtain ⟨e, he, hp⟩ := entered
        have known := taken.before.known c call (by simp [hcs]) e he
        cases hs.symm.trans (Stage.slot?_of_entry? he)
        obtain ⟨c', r, h', published⟩ := traced.published e.slot e known
        have earlier := published.trans ((List.suffix_cons _ _).trans there)
        obtain ⟨n', looked'⟩ := reach.works earlier rfl
        cases reach.same_era there earlier looked looked'
        exact ⟨c', e, r, h', published, hp, looked'⟩
  · intro key e he
    obtain ⟨keys, calls, conducted, traced⟩ := reach.traced
    obtain ⟨_, _, dated⟩ := reach.dated
    have suits := (Recorded.suits conducted.tenure he).1
    obtain ⟨id, hk, he⟩ := Option.bind_eq_some_iff.1 he
    obtain ⟨k, -, suits'⟩ := conducted.tenure.entry id e he
    obtain rfl := suits'.slot
    obtain ⟨c, r, h, published⟩ := traced.published e.slot e he
    obtain ⟨n, looked⟩ := reach.works published rfl
    have now := reach.era published looked
    cases (dated.index key e.slot hk).symm.trans now
    exact ⟨suits.key, c, r, h, published, looked⟩

end Machines

def cacheKey : Key := ⟨"app::Cache", "Cache"⟩

def cacheSetting : Setting where
  observers := 0
  accessor _ := ⟨.singleton, fun _ run =>
    if run = 1 then .call .reset fun _ => .finish (.ok ⟨none, []⟩) else .finish (.ok ⟨none, []⟩)⟩

def cacheJobs : List (List Demand) := List.replicate 2 [⟨.inl (.resolve cacheKey), .plain⟩]

/-- The second client makes a cache of its own, and the first one keeps the cache that it has
made. -/
theorem cache_made_in_two_generations :
    ∃ m, (Machine.start cacheSetting cacheJobs).Reaches m ∧ m.history.resets = 1 ∧
      (m.history.returned cacheKey).map Instance.run = [1, 2] ∧ m.Isolates := by
  obtain ⟨m, reach, resets, returned⟩ := Machine.exists_of_follow
    (m := Machine.start cacheSetting cacheJobs)
    (List.replicate 7 0 ++ List.replicate 10 1 ++ List.replicate 4 0)
    (P := fun m => m.history.resets = 1 ∧
      (m.history.returned cacheKey).map Instance.run = [1, 2]) (by decide +kernel)
  exact ⟨m, reach, resets, returned, generations_isolated reach⟩

end Wiring.Registry
