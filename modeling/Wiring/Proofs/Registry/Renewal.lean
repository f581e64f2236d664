import Wiring.Proofs.Registry.FirstRegistration
import Wiring.Proofs.Registry.Generations

/-!
Entries that keep nothing. Where the entry of a key has neither an instance nor a cell to keep one,
every instance that a run for the key has made is in the hand of the call that made it or has been
returned by it, once. So no two calls come back with one instance, and what has been made in a
finished run has been returned.
-/
namespace Wiring.Registry

/-- The entry of `key`, if there is one, has no place for an instance. -/
def Store.Renews (s : Store) (key : Key) : Prop :=
  ∀ e, s.entryOf? key = some e → e.resolution.isLazy = false ∧ e.resolution.instance? = none

/-- `hands` are the instances that calls for `key` have in hand, no two of one client. -/
structure InHand (calls : ClientId → List Call) (key : Key) (hands : List (ClientId × Instance)) :
    Prop where
  iff : ∀ c inst, (c, inst) ∈ hands ↔
    ∃ call ∈ calls c, call.key = key ∧ call.stage.yield? = some inst
  apart : hands.Pairwise fun x y => x.1 ≠ y.1

namespace InHand

variable {calls : ClientId → List Call} {c : ClientId} {call : Call} {rest calls' : List Call}
  {key : Key} {stage : Stage} {inst : Instance} {hands : List (ClientId × Instance)}

theorem same (old : InHand calls key hands)
    (mine : ∀ inst, (∃ call ∈ calls c, call.key = key ∧ call.stage.yield? = some inst) ↔
      ∃ call ∈ calls', call.key = key ∧ call.stage.yield? = some inst) :
    InHand (Function.update calls c calls') key hands := by
  refine ⟨fun c' inst => ?_, old.apart⟩
  by_cases hc : c' = c
  · subst hc
    rw [Function.update_self, old.iff, mine]
  · rw [Function.update_of_ne hc, old.iff]

/-- A call gets an instance that it has made. -/
theorem gets (old : InHand calls call.key hands) (hc : calls c = call :: rest)
    (free : ∀ x ∈ rest, x.key ≠ call.key) (idle : call.stage.yield? = none)
    (now : stage.yield? = some inst) :
    InHand (Function.update calls c ({ call with stage } :: rest)) call.key
      ((c, inst) :: hands) := by
  refine ⟨fun c' i => ?_, List.pairwise_cons.2 ⟨fun x hx he => ?_, old.apart⟩⟩
  · by_cases hcc : c' = c
    · subst hcc
      rw [Function.update_self, List.mem_cons, old.iff, hc]
      simp [idle, now, eq_comm]
    · rw [Function.update_of_ne hcc, ← old.iff]
      simp [hcc]
  · obtain ⟨c', i⟩ := x
    obtain rfl : c = c' := he
    obtain ⟨x, hx, hxk, hxy⟩ := (old.iff c i).1 hx
    rw [hc] at hx
    cases hx with
    | head => cases idle.symm.trans hxy
    | tail _ hx => exact free x hx hxk

/-- A call comes back with the instance that it has in hand. -/
theorem gives (old : InHand calls call.key hands) (hc : calls c = call :: rest)
    (free : ∀ x ∈ rest, x.key ≠ call.key) (had : call.stage.yield? = some inst) :
    ∃ left, hands.Perm ((c, inst) :: left) ∧
      InHand (Function.update calls c rest) call.key left := by
  have there : (c, inst) ∈ hands := (old.iff c inst).2 ⟨call, hc ▸ List.mem_cons_self, rfl, had⟩
  obtain ⟨first, last, rfl⟩ := List.append_of_mem there
  have moved : (first ++ (c, inst) :: last).Perm ((c, inst) :: (first ++ last)) :=
    List.perm_middle
  have apart := moved.pairwise old.apart Ne.symm
  rw [List.pairwise_cons] at apart
  refine ⟨first ++ last, moved, fun c' i => ?_, apart.2⟩
  have known := old.iff c' i
  rw [moved.mem_iff, List.mem_cons] at known
  by_cases hcc : c' = c
  · subst hcc
    rw [Function.update_self]
    refine iff_of_false (fun still => apart.1 _ still rfl) ?_
    rintro ⟨x, hx, hk, -⟩
    exact free x hx hk
  · rw [Function.update_of_ne hcc, ← known]
    simp [hcc]

end InHand

/-- What has been made for `key` is in hand or has been returned. -/
def Ledger (key : Key) (calls : ClientId → List Call) (h : History) : Prop :=
  ∃ hands, InHand calls key hands ∧ (h.made key).Perm (hands.map Prod.snd ++ h.returned key)

section Step

variable {terms : Terms} {key : Key} {offer : Option ProducerId} {stage stage' : Stage} {a : Action}
  {r : a.Response} {c : ClientId} {h : History}

/-- What a step of a call for `key` does to what has been made for `k`, and to what the call has in
hand. -/
inductive Stage.Yields (key k : Key) (stage stage' : Stage) (before after : List Instance) : Prop
  | still (same : stage'.yield? = stage.yield?) (made : after = before)
  | makes {inst : Instance} (idle : stage.yield? = none) (now : stage'.yield? = some inst)
      (made : after = if key = k then inst :: before else before)
  | keeps {e : Entry} (there : stage'.entry? = some e)
      (kept : e.resolution.isLazy = true ∨ e.resolution.instance?.isSome) (made : after = before)

theorem Stage.Next.yields (n : stage.Next terms key offer a r stage') (k : Key) :
    stage.Yields key k stage' (h.made k) (History.made k (⟨c, a, r⟩ :: h)) := by
  cases n with
  | @tried _ _ _ _ result | @made _ _ _ _ result =>
      cases result with
      | ok inst => exact .makes rfl rfl rfl
      | error e => exact .still rfl rfl
  | publishMade _ hi => exact .keeps rfl (.inr (Option.isSome_of_eq_some hi)) rfl
  | fill lazy => exact .keeps rfl (.inl lazy) rfl
  | _ => exact .still rfl rfl

theorem Stage.Next.returned (n : stage.Next terms key offer a r stage') (k : Key) :
    History.returned k (⟨c, a, r⟩ :: h) = h.returned k := by
  cases n <;> rfl

theorem Action.IsAside.ledger (ha : a.IsAside) (k : Key) :
    History.made k (⟨c, a, r⟩ :: h) = h.made k ∧
      History.returned k (⟨c, a, r⟩ :: h) = h.returned k := by
  cases a with
  | newProducer | findEntry | countEntries | clearEntries | readCell | note | pause | yield
  | observe => exact ⟨rfl, rfl⟩
  | _ => cases ha

end Step

theorem Stage.Ends.empty_handed {key : Key} {stage : Stage} {error : ResolveError}
    (ends : stage.Ends key (.error error)) : stage.yield? = none := by
  cases ends <;> rfl

section Calls

variable {terms : Terms} {keys : List Key} {calls : ClientId → List Call} {s : Store}
  {c : ClientId} {h : History} {call : Call} {key : Key}

theorem Store.Renews.known (renews : s.Renews call.key) (rec : Recorded keys calls s h)
    (t : Tenure terms keys calls s) (hx : call ∈ calls c) {e : Entry}
    (he : call.stage.entry? = some e) :
    e.resolution.isLazy = false ∧ e.resolution.instance? = none :=
  renews e (rec.entryOf?_of_known t hx e he)

/-- A call comes back with nothing but what it has in hand. -/
theorem Store.Renews.ends (renews : s.Renews call.key) (rec : Recorded keys calls s h)
    (t : Tenure terms keys calls s) (hx : call ∈ calls c) {inst : Instance}
    (ends : call.stage.Ends call.key (.ok inst)) : call.stage.yield? = some inst := by
  have known := fun e => renews.known rec t hx (e := e)
  have there := t.known c call hx
  have full := t.cached c call hx
  obtain ⟨key, mode, offer, stage⟩ := call
  cases ends with
  | @stored e _ hi => cases (known e rfl).2.symm.trans hi
  | @cached e _ =>
      obtain ⟨e', there', lazy, -⟩ := t.full e.slot inst (full e inst rfl)
      cases (there e rfl).symm.trans there'
      cases (known e rfl).1.symm.trans lazy
  | fresh => rfl

theorem ledger_own {a : Action} {r : a.Response} {rest : List Call} {stage : Stage}
    (old : Ledger key calls h) (hcs : calls c = call :: rest)
    (free : ∀ x ∈ rest, x.key ≠ call.key)
    (n : call.stage.Next terms call.key call.offer a r stage)
    (keepless : call.key = key → ∀ e, stage.entry? = some e →
      e.resolution.isLazy = false ∧ e.resolution.instance? = none) :
    Ledger key (Function.update calls c ({ call with stage } :: rest)) (⟨c, a, r⟩ :: h) := by
  obtain ⟨hands, inHand, perm⟩ := old
  have elsewhere (hk : call.key ≠ key) :
      InHand (Function.update calls c ({ call with stage } :: rest)) key hands :=
    inHand.same fun inst => by simp [hcs, hk]
  rw [Ledger, n.returned key]
  cases n.yields key (h := h) (c := c) with
  | still same made =>
      rw [made]
      exact ⟨hands, inHand.same fun inst => by simp [hcs, same], perm⟩
  | makes idle now made =>
      rw [made]
      by_cases hk : call.key = key
      · subst hk
        rw [if_pos rfl]
        exact ⟨_, inHand.gets hcs free idle now, perm.cons _⟩
      · rw [if_neg hk]
        exact ⟨hands, elsewhere hk, perm⟩
  | @keeps e there kept made =>
      rw [made]
      refine ⟨hands, elsewhere fun hk => ?_, perm⟩
      obtain ⟨eager, empty⟩ := keepless hk e there
      simp [eager, empty] at kept

theorem ledger_leave {rest : List Call} {mode : Mode} {before : List String} {result : Resolved}
    (old : Ledger key calls h) (hcs : calls c = call :: rest)
    (free : ∀ x ∈ rest, x.key ≠ call.key)
    (hand : call.key = key → call.stage.yield? = result.toOption) :
    Ledger key (Function.update calls c rest)
      (⟨c, .leave mode call.key before result, ()⟩ :: h) := by
  obtain ⟨hands, inHand, perm⟩ := old
  by_cases hk : call.key = key
  · subst hk
    have hand := hand rfl
    cases result with
    | error e => exact ⟨hands, inHand.same fun inst => by simp [hcs, hand, Except.toOption], perm⟩
    | ok inst =>
        obtain ⟨left, moved, inHand⟩ := inHand.gives hcs free hand
        refine ⟨left, inHand, ?_⟩
        simp only [History.made, History.returned, if_true]
        exact (perm.trans ((moved.map Prod.snd).append_right _)).trans List.perm_middle.symm
  · refine ⟨hands, inHand.same fun inst => by simp [hcs, hk], ?_⟩
    cases result with
    | error e => exact perm
    | ok inst =>
        simp only [History.made, History.returned, if_neg hk]
        exact perm

end Calls

theorem ledger_kept (terms : Terms) (key : Key) :
    KeptCalm terms fun _ calls s h => s.Renews key → Ledger key calls h := by
  intro keys calls s c a r calls' keys' s' h taken calm rec old renews
  have before : s.Renews key := fun e he => renews e (taken.entryOf?_kept calm rec.indexed he)
  have rec' := taken.recorded calm rec
  have ledger := old before
  have nested := (taken.before.nested c).pairwise
  have later := taken.after
  have move := taken.move
  generalize hcs : calls c = cs at move nested
  have free {call : Call} {rest : List Call} (same : cs = call :: rest) :
      ∀ x ∈ rest, x.key ≠ call.key := by
    subst same
    exact fun x hx he => (List.pairwise_cons.1 nested).1 x hx (congrArg Key.name he.symm)
  cases move with
  | @own call rest _ _ stage n =>
      refine ledger_own ledger hcs (free rfl) n fun hk e he => ?_
      subst hk
      have top : { call with stage } ∈
          Function.update calls c ({ call with stage } :: rest) c := by simp
      have renews : s'.Renews ({ call with stage } : Call).key := renews
      exact renews.known rec' later top he
  | @leave call _ result ends =>
      refine ledger_leave ledger hcs (free rfl) fun hk => ?_
      subst hk
      cases result with
      | error e => exact ends.empty_handed
      | ok inst => exact before.ends rec taken.before (hcs ▸ List.mem_cons_self) ends
  | enter =>
      obtain ⟨hands, inHand, perm⟩ := ledger
      exact ⟨hands, inHand.same fun inst => by simp [hcs, Stage.yield?], perm⟩
  | refuse =>
      obtain ⟨hands, inHand, perm⟩ := ledger
      exact ⟨hands, inHand.same fun inst => by rw [hcs], perm⟩
  | aside _ ha =>
      obtain ⟨hands, inHand, perm⟩ := ledger
      refine ⟨hands, inHand.same fun inst => by rw [hcs], ?_⟩
      rw [(ha.ledger key).1, (ha.ledger key).2]
      exact perm

section Machines

variable {setting : Setting} {jobs : List (List Demand)} {m : Machine} {key : Key} {e : Entry}

theorem History.minted_of_made {h : History} {inst : Instance} (hm : inst ∈ History.made key h) :
    ∃ x : History, x <:+ h ∧ x.minted? = some inst.serial := by
  induction h with
  | nil => cases hm
  | cons p h ih =>
      have earlier (hm : inst ∈ History.made key h) :
          ∃ x : History, x <:+ p :: h ∧ x.minted? = some inst.serial := by
        obtain ⟨x, hx, minted⟩ := ih hm
        exact ⟨x, hx.trans (List.suffix_cons p h), minted⟩
      obtain ⟨c, a, r⟩ := p
      cases a with
      | endRun =>
          cases r with
          | error => exact earlier hm
          | ok i =>
              simp only [History.made] at hm
              split at hm
              · cases hm with
                | head => exact ⟨_, List.suffix_refl _, rfl⟩
                | tail _ hm => exact earlier hm
              · exact earlier hm
      | _ => exact earlier hm

/-- No two instances that were made for a key have one number. -/
theorem Machine.Reaches.made_apart (reach : (Machine.start setting jobs).Reaches m) :
    (m.history.made key).Pairwise fun i j => i.serial ≠ j.serial := by
  have once {x y : History} (hx : x <:+ m.history) (hy : y <:+ m.history) {n : Nat}
      (minted : x.minted? = some n) (minted' : y.minted? = some n) : x = y :=
    reach.made_once hx hy minted minted'
  generalize m.history = h at once
  induction h with
  | nil => exact .nil
  | cons p h ih =>
      have apart := ih fun hx hy =>
        once (hx.trans (List.suffix_cons p h)) (hy.trans (List.suffix_cons p h))
      obtain ⟨c, a, r⟩ := p
      cases a with
      | endRun =>
          cases r with
          | error => exact apart
          | ok inst =>
              simp only [History.made]
              split
              · refine List.pairwise_cons.2 ⟨fun i hi same => ?_, apart⟩
                obtain ⟨x, hx, minted⟩ := History.minted_of_made hi
                obtain rfl := once (hx.trans (List.suffix_cons _ _)) (List.suffix_refl _)
                  (minted.trans (congrArg some same.symm)) rfl
                exact absurd hx.length_le (by simp)
              · exact apart
      | _ => exact apart

theorem Machine.Conducted.idle {terms : Terms} {keys : List Key} {calls : ClientId → List Call}
    {ends : ClientId → List Reply → Prop} (conducted : m.Conducted terms keys calls ends)
    (finished : ∀ client ∈ m.clients, client.Finished) (c : ClientId) : calls c = [] := by
  cases hc : m.clients[c]? with
  | none => exact conducted.absent c hc
  | some client =>
      obtain ⟨replies, done⟩ := finished client (List.mem_of_getElem? hc)
      have post := conducted.abides c client hc
      rw [done] at post
      exact post.2.1

/-- Where the entry of a key keeps nothing, calls for it come back with different instances. In a
finished run they come back with all that have been made. -/
theorem Machine.Reaches.returned_apart (reach : (Machine.start setting jobs).Reaches m)
    (calm : m.history.Calm) (renews : m.store.Renews key) :
    (m.history.returned key).Pairwise (fun i j => i.serial ≠ j.serial) ∧
      ((∀ client ∈ m.clients, client.Finished) →
        (m.history.returned key).Perm (m.history.made key)) := by
  have start : Store.empty.Renews key → Ledger key (fun _ => []) [] :=
    fun _ => ⟨[], ⟨by simp, .nil⟩, .nil⟩
  obtain ⟨keys, calls, conducted, -, ledger⟩ := reach.recorded calm start (ledger_kept _ key)
  obtain ⟨hands, inHand, perm⟩ := ledger renews
  have apart := perm.pairwise reach.made_apart Ne.symm
  refine ⟨(List.pairwise_append.1 apart).2.1, fun finished => ?_⟩
  have empty : hands = [] := by
    refine List.eq_nil_iff_forall_not_mem.2 fun x hx => ?_
    obtain ⟨call, there, -⟩ := (inHand.iff x.1 x.2).1 hx
    rw [conducted.idle finished] at there
    cases there
  subst empty
  exact perm.symm

/-- A call that comes back with an instance of an entry that keeps none has ended one run, of the
producer of the entry, and the instance is what the run has made. -/
theorem Machine.Reaches.renewed (reach : (Machine.start setting jobs).Reaches m)
    (calm : m.history.Calm) (entry : m.store.entryOf? key = some e) (renews : m.store.Renews key)
    {c : ClientId} {mode : Mode} {before : List String} {inst : Instance} {h : History}
    (there : ⟨c, .leave mode key before (.ok inst), ()⟩ :: h <:+ m.history) :
    ∃ own p, (h.deeds c).head? = some own ∧ e.resolution.producer? = some p ∧
      runs own = [(p, .ok inst)] := by
  obtain ⟨keys, calls, calls', keys', m₁, m₂, reach₁, later, hs, rfl, taken, traced, rec⟩ :=
    reach.taken
      (J := fun keys calls s h => Traced (.plain setting.observers none) keys calls s h ∧
        Calmly (fun _ _ _ _ => True) keys calls s h)
      ⟨traced_start _, fun _ => ⟨recorded_start, trivial⟩⟩
      (Kept.and (traced_kept _) (calmly_kept fun _ _ _ _ => trivial)) there
  have after : m₁.Reaches m := (Machine.Reaches.step .start hs).trans later
  obtain ⟨rec, -⟩ := rec (calm.suffix after.suffix)
  obtain ⟨call, hcs, rfl, ends⟩ := taken.leaves
  have top : call ∈ calls c := by simp [hcs]
  obtain ⟨own, ho, comes⟩ := traced.top hcs
  have before : m₁.store.Renews call.key := fun e he => renews e (reach₁.keeps he after calm)
  have hand := before.ends rec taken.before top ends
  have same (e' : Entry) (he : call.stage.entry? = some e') : e' = e :=
    have there := reach₁.keeps (rec.entryOf?_of_known taken.before top e' he) after calm
    Option.some.inj (there.symm.trans entry)
  have ran := comes.ran
  obtain ⟨key, mode, offer, stage⟩ := call
  cases ends with
  | fresh =>
      obtain rfl := same _ rfl
      obtain ⟨p, hp, ran⟩ := ran
      exact ⟨own, p, ho, hp, ran⟩
  | _ => cases hand

/-- An entry that keeps nothing stays as it is, and so does what can be asked of its key. -/
theorem Machine.Reaches.unchanged (reach : (Machine.start setting jobs).Reaches m)
    (entry : m.store.entryOf? key = some e) (renews : m.store.Renews key) {m' : Machine}
    (later : m.Reaches m') (calm : m'.history.Calm) :
    m'.store.entryOf? key = some e ∧ m'.store.stateOf key = m.store.stateOf key ∧
      m'.store.kept? key = none := by
  have entry' := reach.keeps entry later calm
  obtain ⟨eager, empty⟩ := renews e entry
  obtain ⟨keys, calls, conducted, -⟩ := (reach.trans later).conducted
    (J := fun _ _ _ _ => True) trivial fun _ _ => trivial
  obtain ⟨suits, there⟩ := Recorded.suits conducted.tenure entry'
  refine ⟨entry', ?_, ?_⟩
  · simp only [Store.stateOf, entry, entry']
    cases hr : e.resolution with
    | lazySingletonAsync =>
        rw [hr] at eager
        cases eager
    | _ => rfl
  · simp only [Store.kept?, entry', Option.bind_some, empty]
    cases hc : (m'.store.slot e.slot).cell with
    | empty | filling => rfl
    | full inst =>
        obtain ⟨e', there', lazy, -⟩ := conducted.tenure.full e.slot inst hc
        cases there.symm.trans there'
        cases eager.symm.trans lazy

end Machines

end Wiring.Registry
