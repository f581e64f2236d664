import Wiring.Proofs.Registry.Attempts
import Wiring.Proofs.Registry.HeldGates

/-!
Calls that fail. A call that is refused does not touch the registry. One whose own producer fails
before there is an entry leaves a slot without an entry at most, which nobody who comes later can
tell from no slot. Where the producer of an entry fails, the registration stands.
-/
namespace Wiring.Registry

/-- Whether a call holds the gate of its slot after its deeds. -/
def holds : List History → Bool
  | [] => false
  | (⟨_, .tryGate _, true⟩ :: _) :: _ | (⟨_, .takeGate _, _⟩ :: _) :: _ => true
  | (⟨_, .freeGate _, _⟩ :: _) :: _ => false
  | _ :: own => holds own

/-- The producer that a call has run in vain while it held the gate of its slot, as it does where
its policy is eager, and the error of the run. -/
def spoiled? : List History → Option (ProducerId × ResolveError)
  | [] => none
  | (⟨_, .endRun _ _ p _ _, .error error⟩ :: _) :: own =>
      if holds own then some (p, error) else spoiled? own
  | _ :: own => spoiled? own

/-- Steps of a call for `key` in `slot` with producer `p` that write nothing but the gate, and give
the key its slot and count a run of `p` at most. -/
def Action.Spares (key : Key) (slot : SlotId) (p : ProducerId) : Action → Prop
  | claimSlot k => k = key
  | tryGate id | takeGate id | freeGate id => id = slot
  | beginRun _ _ q => q = p
  | endRun _ _ _ _ outcome => ∃ error, outcome = .error error
  | publish .. | claimCell _ | fillCell .. | freeCell _ | clearEntries | newProducer => False
  | _ => True

def Action.IsRequest : Action → Prop
  | clearEntries | newProducer => True
  | _ => False

/-- The moment is one of a step that spares the store, or that a producer has asked for. -/
def History.Spares (key : Key) (slot : SlotId) (p : ProducerId) : History → Prop
  | [] => True
  | x :: _ => x.action.IsRequest ∨ x.action.Spares key slot p

/-- The store `s'` is `s` but for the gate of one slot and the count of runs of one producer, unless
`key` has got a slot without an entry. -/
structure Store.Spared (s s' : Store) (key : Key) (slot : SlotId) (p : ProducerId) : Prop where
  entry : ∀ id, (s'.slot id).entry = (s.slot id).entry
  cell : ∀ id, (s'.slot id).cell = (s.slot id).cell
  gate : ∀ id, id ≠ slot → (s'.slot id).gate = (s.slot id).gate
  others : ∀ k, k ≠ key → s'.slotOf? k = s.slotOf? k
  own : s'.slotOf? key = s.slotOf? key ∨
    s.slotOf? key = none ∧ s'.slotOf? key = some s.slots.length ∧ s'.entryOf? key = none
  runs : ∀ q, q ≠ p → s'.runs q = s.runs q
  made : s'.made = s.made
  producers : s'.producers = s.producers
  answer : ∀ mode (q : Request mode), s'.answer? q = s.answer? q

def Stage.IsEarly : Stage → Prop
  | entered | claimed _ | missed _ | gated _ | vacant _ | trying .. | tried _ (.error _) => True
  | _ => False

def Stage.Spoils (error : ResolveError) : Stage → Prop
  | tried _ r => r = .error error
  | failed e => e = error
  | _ => False

/-- What is so of a call whose own producer has failed before there was an entry. -/
structure Call.Spoiled (call : Call) (own : List History) (p : ProducerId) (error : ResolveError) :
    Prop where
  offered : call.offer = some p
  ran : runs own = [(p, .error error)]
  stage : call.stage.Spoils error
  quiet : ∃ slot n, lookup? own = some (slot, n) ∧ ∀ x ∈ own, x.Spares call.key slot p

theorem Call.Spoiled.idle {call : Call} {own : List History} {p : ProducerId} {error : ResolveError}
    (spoiled : call.Spoiled own p error) : call.stage.run? = none := by
  have stage := spoiled.stage
  cases hs : call.stage with
  | trying | making =>
      rw [hs] at stage
      cases stage
  | _ => rfl

theorem Made.fails {key : Key} {p : ProducerId} {run : Nat} {outcome : Outcome}
    {error : ResolveError} (made : Made key p run outcome (.error error)) :
    ∃ error, outcome = .error error := by
  obtain ⟨serial, made⟩ := made
  cases outcome with
  | ok => cases made
  | error error => exact ⟨error, rfl⟩

namespace Call.Comes

variable {terms : Terms} {c : ClientId} {own : List History} {call : Call}

theorem holds (comes : call.Comes terms c own) : holds own = call.stage.gate?.isSome := by
  induction comes with
  | entered => rfl
  | @next own call a r stage h before step ih =>
      obtain ⟨key, mode, offer, old⟩ := call
      cases step <;> first | rfl | exact ih
  | @aside own call a r h before running ha ih =>
      cases a with
      | newProducer | findEntry | countEntries | clearEntries | readCell | note | pause | yield
      | observe => exact ih
      | _ => cases ha
  | refused _ _ ih => exact ih

/-- A call that has not come to an entry has not written one, nor into a cell. -/
theorem spares (comes : call.Comes terms c own) (early : call.stage.IsEarly) {p : ProducerId}
    (hp : call.offer = some p) {slot : SlotId} (hs : ∀ id, call.stage.slot? = some id → id = slot) :
    ∀ x ∈ own, x.Spares call.key slot p := by
  induction comes with
  | entered =>
      rintro x (_ | ⟨_, hx⟩)
      · exact .inr trivial
      · cases hx
  | @next own call a r stage h before step ih =>
      obtain ⟨key, mode, offer, old⟩ := call
      rw [List.forall_mem_cons]
      cases step with
      | claim =>
          exact ⟨.inr rfl, ih trivial hp (by simp [Stage.slot?, Stage.gate?, Stage.entry?])⟩
      | miss | confirm => exact ⟨.inr trivial, ih trivial hp hs⟩
      | tryGate | gateHeld | takeGate => exact ⟨.inr (hs _ rfl), ih trivial hp hs⟩
      | attempt hp' => exact ⟨.inr (Option.some.inj (hp'.symm.trans hp)), ih trivial hp hs⟩
      | @tried _ _ _ outcome r hm =>
          cases r with
          | ok => cases early
          | error => exact ⟨.inr hm.fails, ih trivial hp hs⟩
      | observe => exact ⟨.inr trivial, ih early hp hs⟩
      | _ => cases early
  | @aside own call a r h before running ha ih =>
      refine List.forall_mem_cons.2 ⟨?_, ih early hp hs⟩
      cases a with
      | clearEntries | newProducer => exact .inl trivial
      | findEntry | countEntries | readCell | note | pause | yield | observe =>
          exact .inr trivial
      | _ => cases ha
  | refused _ _ ih => exact List.forall_mem_cons.2 ⟨.inr trivial, ih early hp hs⟩

/-- A call whose own producer has failed gives the gate back and fails with the error of the run. -/
theorem spoiled (comes : call.Comes terms c own) {p : ProducerId} {error : ResolveError}
    (spoiled : spoiled? own = some (p, error)) : call.Spoiled own p error := by
  induction comes with
  | entered => cases spoiled
  | @next own call a r stage h before step ih =>
      have holding := before.holds
      have fits := before.fits
      have idle := before.ran
      have looked := before.looked.slot
      have spares := before.spares
      obtain ⟨key, mode, offer, old⟩ := call
      cases step with
      | @tried slot p' run outcome result hm =>
          cases result with
          | ok inst => cases (ih spoiled).stage
          | error error' =>
              have now : some (p', error') = some (p, error) := by
                simpa [spoiled?, holding, Stage.gate?] using spoiled
              cases now
              obtain ⟨n, found⟩ := looked slot rfl
              refine ⟨fits, ?_, rfl, slot, n, ?_, List.forall_mem_cons.2 ⟨.inr hm.fails, ?_⟩⟩
              · rw [runs_cons, show runs own = [] from idle]
                rfl
              · rw [lookup?_cons, found]
                rfl
              · exact spares trivial fits fun id hs => (Option.some.inj hs).symm
      | @made e p' run outcome result hm =>
          cases result with
          | ok => cases (ih spoiled).stage
          | error =>
              have before : spoiled? own = some (p, error) := by
                simpa [spoiled?, holding, Stage.gate?] using spoiled
              cases (ih before).stage
      | @freeTried slot error' =>
          obtain ⟨offered, ran, stage, slot', n, found, quiet⟩ := ih spoiled
          cases stage
          obtain ⟨n', found'⟩ := looked slot rfl
          cases found.symm.trans found'
          exact ⟨offered, ran, rfl, slot, n, by rw [lookup?_cons, found]; rfl,
            List.forall_mem_cons.2 ⟨.inr rfl, quiet⟩⟩
      | observe =>
          obtain ⟨offered, ran, stage, slot, n, found, quiet⟩ := ih spoiled
          exact ⟨offered, ran, stage, slot, n, by rw [lookup?_cons, found]; rfl,
            List.forall_mem_cons.2 ⟨.inr trivial, quiet⟩⟩
      | _ => cases (ih spoiled).stage
  | @aside own call a r h before running ha ih =>
      have earlier : spoiled? own = some (p, error) := by
        cases a with
        | endRun => cases ha
        | _ => exact spoiled
      simp [(ih earlier).idle] at running
  | refused _ running ih => simp [(ih spoiled).idle] at running

/-- All moments of a call are steps of its client. -/
theorem mine (comes : call.Comes terms c own) : ∀ x ∈ own, ∃ a r h, x = ⟨c, a, r⟩ :: h := by
  induction comes with
  | entered =>
      rintro x (_ | ⟨_, hx⟩)
      · exact ⟨_, _, _, rfl⟩
      · cases hx
  | next _ _ ih | aside _ _ _ ih | refused _ _ ih =>
      exact List.forall_mem_cons.2 ⟨⟨_, _, _, rfl⟩, ih⟩

end Call.Comes

section Effect

variable {c : ClientId} {t t' : Trail} {s s' : Store} {a : Action} {r : a.Response} {key : Key}
  {slot : SlotId} {p : ProducerId}

theorem Store.slotOf?_claim_of_ne {k : Key} (hk : k ≠ key) :
    (s.claim key).2.slotOf? k = s.slotOf? k := by
  cases hs : s.slotOf? k with
  | some id => exact Store.slotOf?_claim hs
  | none =>
      refine Option.eq_none_iff_forall_ne_some.2 fun id found => ?_
      obtain there | ⟨same, -⟩ := Store.slotOf?_claim_cases found
      · cases hs.symm.trans there
      · exact hk same

/-- A key that is claimed keeps its slot, or it gets the next one. -/
theorem Store.slotOf?_claim_self : (s.claim key).2.slotOf? key = s.slotOf? key ∨
    s.slotOf? key = none ∧ (s.claim key).2.slotOf? key = some s.slots.length := by
  cases hs : s.slotOf? key with
  | some id => exact .inl (Store.slotOf?_claim hs)
  | none =>
      refine .inr ⟨rfl, Store.slotOf?_claim_new (Nat.le_refl _) ?_⟩
      rw [Store.claim_of_none hs, List.length_append]
      exact Nat.lt_succ_self _

/-- What a step writes that spares the store. -/
theorem Action.Spares.writes {id : SlotId} {f : Slot → Slot} (spares : a.Spares key slot p)
    (writes : a.writes? c = some (id, f)) :
    id = slot ∧ ∀ σ, (f σ).entry = σ.entry ∧ (f σ).cell = σ.cell := by
  cases a with
  | tryGate | takeGate | freeGate =>
      cases writes
      exact ⟨spares, fun σ => ⟨rfl, rfl⟩⟩
  | publish | claimCell | fillCell | freeCell => cases spares
  | _ => cases writes

theorem Action.Spares.counts (spares : a.Spares key slot p)
    (hp : a.perform c t s = some (r, t', s')) :
    (∀ q, q ≠ p → s'.runs q = s.runs q) ∧ s'.made = s.made ∧ s'.producers = s.producers := by
  have tallies := Action.tallies hp
  cases a with
  | beginRun _ _ q =>
      obtain rfl : q = p := spares
      obtain ⟨runs, made, producers⟩ := tallies
      refine ⟨fun q' hq => ?_, made, producers⟩
      rw [runs]
      exact if_neg hq
  | endRun =>
      obtain ⟨error, rfl⟩ := spares
      obtain ⟨runs, made, producers⟩ := tallies
      exact ⟨fun q _ => congrFun runs q, made, producers⟩
  | newProducer => cases spares
  | _ =>
      obtain ⟨runs, made, producers⟩ := tallies
      exact ⟨fun q _ => congrFun runs q, made, producers⟩

theorem Action.spared (hp : a.perform c t s = some (r, t', s')) (spares : a.Spares key slot p)
    (apart : (s.index.map Prod.fst).Nodup) (apart' : (s'.index.map Prod.fst).Nodup) :
    s.Spared s' key slot p := by
  have calm : a ≠ .clearEntries := by
    rintro rfl
    cases spares
  have entry (id : SlotId) : (s'.slot id).entry = (s.slot id).entry :=
    Action.perform_view Slot.entry hp (fun _ _ writes σ => ((spares.writes writes).2 σ).1) id
  have cell (id : SlotId) : (s'.slot id).cell = (s.slot id).cell :=
    Action.perform_view Slot.cell hp (fun _ _ writes σ => ((spares.writes writes).2 σ).2) id
  have gate (id : SlotId) (hid : id ≠ slot) : (s'.slot id).gate = (s.slot id).gate := by
    cases Action.alters hp with
    | nothing slots => simp only [Store.slot, slots]
    | slot writes =>
        obtain ⟨rfl, -⟩ := spares.writes writes
        rw [s.slot_update_of_ne hid]
    | index => rw [Store.slot_claim]
  have others (k : Key) (hk : k ≠ key) : s'.slotOf? k = s.slotOf? k := by
    cases Action.alters hp with
    | nothing slots index => simp only [Store.slotOf?, index calm]
    | slot => rfl
    | index =>
        obtain rfl : _ = key := spares
        exact Store.slotOf?_claim_of_ne hk
  have own : s'.slotOf? key = s.slotOf? key ∨
      s.slotOf? key = none ∧ s'.slotOf? key = some s.slots.length ∧ s'.entryOf? key = none := by
    cases Action.alters hp with
    | nothing slots index => exact .inl (by simp only [Store.slotOf?, index calm])
    | slot => exact .inl rfl
    | index =>
        obtain rfl : _ = key := spares
        obtain same | ⟨absent, found⟩ := Store.slotOf?_claim_self
        · exact .inl same
        · refine .inr ⟨absent, found, ?_⟩
          rw [Store.entryOf?, found, Option.bind_some, entry, s.slot_of_length_le (Nat.le_refl _)]
          rfl
  obtain ⟨runs, made, producers⟩ := spares.counts hp
  refine ⟨entry, cell, gate, others, own, runs, made, producers, fun _ q => ?_⟩
  refine Store.answer?_congr apart apart' (fun k => ?_) (fun id => by rw [cell]) q
  by_cases hk : k = key
  · subst hk
    obtain same | ⟨absent, -, vacant⟩ := own
    · simp only [Store.entryOf?, same, entry]
    · rw [vacant, Store.entryOf?, absent, Option.bind_none]
  · simp only [Store.entryOf?, others k hk, entry]

end Effect

def Program.Only {α : Type} (P : Action → Prop) : Program α → Prop
  | .done _ => True
  | .step a next => P a ∧ ∀ r, (next r).Only P

def Action.IsRun : Action → Prop
  | beginRun .. | endRun .. => True
  | _ => False

section Deferred

open Program

variable {α β : Type} {P : Action → Prop} {setting : Setting} {runner : Runner} {runtime : Runtime}
  {slot : SlotId} {key : Key} {policy : Policy}

theorem Program.Only.bind {p : Program α} {f : α → Program β} (first : p.Only P)
    (rest : ∀ a, (f a).Only P) : (p >>= f).Only P := by
  induction p with
  | done a => exact rest a
  | step a next ih => exact ⟨first.1, fun r => ih r (first.2 r)⟩

theorem only_publishEntry (e : Entry) :
    (publishEntry setting e).Only fun a => ¬a.IsRun := by
  have told (is : List Nat) :
      (is.forM fun i => perform (.observe i (.registered e.key e.policy))).Only
        fun a => ¬a.IsRun := by
    induction is with
    | nil => trivial
    | cons i is ih => exact ⟨id, fun _ => ih⟩
  exact ⟨id, fun r => (told _).bind fun _ => trivial⟩

theorem only_registerSync (deferred : policy.isEager = false) (producer : Producer .sync) :
    (registerSync setting runner runtime slot key policy producer).Only fun a => ¬a.IsRun := by
  have gated : (registerSyncGated setting runner runtime slot key policy producer).Only
      fun a => ¬a.IsRun := by
    refine ⟨id, fun found => ?_⟩
    cases found with
    | some e => trivial
    | none =>
        cases policy with
        | singleton | singletonAsync => cases deferred
        | factory | lazySingleton => exact (only_publishEntry _).bind fun _ => trivial
        | factoryAsync | lazySingletonAsync => trivial
  have taking : (takeGateSync runtime slot).Only fun a => ¬a.IsRun := by
    refine ⟨id, fun free => ?_⟩
    cases free with
    | true => trivial
    | false =>
        cases runtime with
        | currentThread => trivial
        | none | multiThread => exact ⟨id, fun _ => trivial⟩
  refine taking.bind fun taken => ?_
  cases taken with
  | true => exact gated.bind fun _ => ⟨id, fun _ => trivial⟩
  | false => trivial

theorem only_registerAsync (deferred : policy.isEager = false) (producer : Producer .async) :
    (registerAsync setting runner runtime slot key policy producer).Only fun a => ¬a.IsRun := by
  have gated : (registerAsyncGated setting runner runtime slot key policy producer).Only
      fun a => ¬a.IsRun := by
    refine ⟨id, fun found => ?_⟩
    cases found with
    | some e => trivial
    | none =>
        cases policy with
        | singleton | singletonAsync => cases deferred
        | factoryAsync | lazySingletonAsync => exact (only_publishEntry _).bind fun _ => trivial
        | factory | lazySingleton => trivial
  exact ⟨id, fun _ => gated.bind fun _ => ⟨id, fun _ => trivial⟩⟩

end Deferred

/-- The calls that register a key, which are handed a policy and a producer. -/
inductive Registers (setting : Setting) (key : Key) (policy : Policy) :
    Mode → Option ProducerId → Program Resolved → Prop
  | plain (runner : Runner) (runtime : Runtime) (producer : Producer .sync) :
      Registers setting key policy .sync (some producer.id)
        (Program.getOrRegister setting runner runtime key policy producer)
  | awaited (runner : Runner) (runtime : Runtime) (producer : Producer .async) :
      Registers setting key policy .async (some producer.id)
        (Program.getOrRegisterAsync setting runner runtime key policy producer)

section Refused

variable {setting : Setting} {key : Key} {policy : Policy} {mode : Mode}
  {offer : Option ProducerId} {call : Program Resolved}

theorem Registers.mismatched (registers : Registers setting key policy mode offer call)
    (other : policy.mode ≠ mode) :
    call = .done (.error (.policyMismatch key.name policy mode)) := by
  cases registers with
  | plain => cases policy <;> first | rfl | exact absurd rfl other
  | awaited => cases policy <;> first | rfl | exact absurd rfl other

theorem Registers.guarded (registers : Registers setting key policy mode offer call)
    (same : policy.mode = mode) : ∃ body, call = Program.guarded mode key offer body := by
  cases registers with
  | plain => cases policy <;> first | exact ⟨_, rfl⟩ | cases same
  | awaited => cases policy <;> first | exact ⟨_, rfl⟩ | cases same

/-- A client whose call the trail refuses goes on with the error, and nothing else has changed. -/
theorem Registers.refused (registers : Registers setting key policy mode offer call)
    (same : policy.mode = mode) {m : Machine} {c : ClientId} {trail : Trail}
    {go : Resolved → Program (List Reply)} {error : ResolveError}
    (hc : m.clients[c]? = some ⟨trail, call >>= go⟩)
    (refuses : trail.refusal? key.name = some error) :
    m.step c = some ⟨m.clients.set c ⟨trail, go (.error error)⟩, m.store,
      ⟨c, .enter mode key offer, .error error⟩ :: m.history⟩ := by
  obtain ⟨body, rfl⟩ := registers.guarded same
  have hp : Action.perform c (.enter mode key offer) trail m.store =
      some (.error error, trail, m.store) := by simp only [Action.perform, refuses]
  exact Machine.step_eq_some hc hp

end Refused

/-- What a call of client `c` for `key` with producer `p` that has these deeds leaves behind. -/
structure Machine.Unmarked (m start : Machine) (c : ClientId) (key : Key) (slot : SlotId)
    (p : ProducerId) (own : List History) : Prop where
  /-- What the call has changed is the gate of its slot, the place of its key and the count of runs
  of its producer, apart from what the producer has asked for. -/
  spared : ∀ x ∈ own, ∃ m₁ m₂ a r, start.Reaches m₁ ∧ m₁.step c = some m₂ ∧ m₂.Reaches m ∧
    m₂.history = x ∧ x = ⟨c, a, r⟩ :: m₁.history ∧
      (a.IsRequest ∨ m₁.store.Spared m₂.store key slot p)
  /-- The client has nothing more to do with the slot of the key. -/
  released : ∀ id, m.store.slotOf? key = some id → (m.store.slot id).gate ≠ some c ∧
    ∀ before ∈ m.history.deeds c, ∀ n, lookup? before ≠ some (id, n)
  /-- If the key has no entry, nobody can tell whether it has a slot, unless another client has
  looked it up. -/
  hidden : m.store.entryOf? key = none →
    (∀ id, m.store.slotOf? key = some id → ∀ d, d ≠ c → ∀ before ∈ m.history.deeds d, ∀ n,
      lookup? before ≠ some (id, n)) → m.Indistinct (m.without key)

/-- What failed calls leave behind. -/
structure Machine.Forgives (m : Machine) (setting : Setting) (start : Machine) : Prop where
  /-- A call with a policy of the other mode takes no step. -/
  mismatched : ∀ key policy mode offer call, Registers setting key policy mode offer call →
    policy.mode ≠ mode → call = .done (.error (.policyMismatch key.name policy mode))
  /-- A client whose call the trail refuses goes on with the error, and nothing else has changed. -/
  refused : ∀ key policy mode offer call, Registers setting key policy mode offer call →
    policy.mode = mode → ∀ c trail go error, m.clients[c]? = some ⟨trail, call >>= go⟩ →
      trail.refusal? key.name = some error →
        m.step c = some ⟨m.clients.set c ⟨trail, go (.error error)⟩, m.store,
          ⟨c, .enter mode key offer, .error error⟩ :: m.history⟩
  /-- No policy but an eager one runs a producer while the gate is held. -/
  eager : ∀ runner runtime slot key policy, policy.isEager = false →
    (∀ producer, (Program.registerSync setting runner runtime slot key policy producer).Only
      fun a => ¬a.IsRun) ∧
    ∀ producer, (Program.registerAsync setting runner runtime slot key policy producer).Only
      fun a => ¬a.IsRun
  /-- While a call holds the gate of a slot, others can tell nothing from it but that it is held. -/
  noticed : ∀ c slot d m', (m.store.slot slot).gate = some c → m.step d = some m' →
    m'.history = ⟨d, .tryGate slot, false⟩ :: m.history ∨
      (m.freed slot).step d = some (m'.freed slot)
  /-- A call whose own producer fails before there is an entry comes back with its error. -/
  failed : ∀ c m' mode key before result own p error, m.step c = some m' →
    m'.history = ⟨c, .leave mode key before result, ()⟩ :: m.history →
      (m.history.deeds c).head? = some own → spoiled? own = some (p, error) →
        result = .error error ∧ runs own = [(p, .error error)] ∧
          (m.history.active c).head? = some (key, some p) ∧
            ∃ slot n, lookup? own = some (slot, n) ∧
              m'.Unmarked start c key slot p (m'.history :: own)
  /-- Where the producer of an entry fails, the entry stands. -/
  stands : ∀ c m' key e p run o error, m.step c = some m' →
    m'.history = ⟨c, .endRun e.slot key p run o, .error error⟩ :: m.history →
      m'.store.entryOf? key = some e → m'.Stands key e p

theorem Nested.running {call : Call} {rest : List Call} (nested : Nested (call :: rest)) {x : Call}
    (hx : x ∈ rest) : x.stage.run?.isSome := by
  induction rest generalizing call with
  | nil => cases hx
  | cons y rest ih =>
      cases hx with
      | head => exact nested.1
      | tail _ hx => exact ih nested.2.2 hx

section Left

variable {terms : Terms} {keys : List Key} {calls : ClientId → List Call} {s : Store} {h : History}
  {c : ClientId} {call : Call} {rest : List Call}

/-- The calls under the innermost one are of other keys, so they hold nothing of the slot of its
key and have not looked it up. -/
theorem Tenure.released (tenure : Tenure terms keys calls s) (traced : Traced terms keys calls s h)
    (nested : Nested (call :: rest)) (hcs : calls c = rest) {id : SlotId}
    (indexed : s.slotOf? call.key = some id) :
    (s.slot id).gate ≠ some c ∧ ∀ own ∈ h.deeds c, ∀ n, lookup? own ≠ some (id, n) := by
  have known := tenure.index call.key id indexed
  have apart {x : Call} (hx : x ∈ rest) : x.stage.slot? ≠ some id := by
    intro hs
    have known' := tenure.slot c x (hcs ▸ hx) id hs
    refine (List.pairwise_cons.1 nested.pairwise).1 x hx ?_
    rw [Option.some.inj (known.symm.trans known')]
  refine ⟨fun held => ?_, fun own ho n found => ?_⟩
  · obtain ⟨x, hx, hs⟩ := (tenure.gate id c).1 held
    exact apart (hcs ▸ hx) (Stage.slot?_of_gate? hs)
  · obtain ⟨x, hx, comes⟩ := exists_of_forall₂ (traced.shows c).flip ho
    rw [hcs] at hx
    obtain ⟨slot, hs⟩ := Option.isSome_iff_exists.1 (Stage.slot?_of_run? (nested.running hx))
    obtain ⟨n', found'⟩ := comes.looked.slot slot hs
    cases found.symm.trans found'
    exact apart hx hs

end Left

section Reached

variable {setting : Setting} {jobs : List (List Demand)} {m m' : Machine} {c : ClientId}
  {mode : Mode} {key : Key} {before : List String} {result : Resolved}

/-- A moment of a call that spares the store is a step between two machines. -/
theorem Machine.Reaches.spared (reach : (Machine.start setting jobs).Reaches m) {x : History}
    (hx : x <:+ m.history) (mine : ∃ a r h, x = ⟨c, a, r⟩ :: h) {slot : SlotId} {p : ProducerId}
    (spares : x.Spares key slot p) :
    ∃ m₁ m₂ a r, (Machine.start setting jobs).Reaches m₁ ∧ m₁.step c = some m₂ ∧ m₂.Reaches m ∧
      m₂.history = x ∧ x = ⟨c, a, r⟩ :: m₁.history ∧
        (a.IsRequest ∨ m₁.store.Spared m₂.store key slot p) := by
  obtain ⟨a, r, h, rfl⟩ := mine
  obtain ⟨m₁, m₂, reach₁, hs, rfl, now, later⟩ :=
    reach.moment hx fun early => absurd (List.suffix_nil.1 early) (List.cons_ne_nil _ _)
  refine ⟨m₁, m₂, a, r, reach₁, hs, later, now, rfl, spares.imp_right fun spares => ?_⟩
  obtain ⟨_, _, -, apart⟩ := reach₁.conducted (J := Indexed) List.nodup_nil (indexed_kept _)
  obtain ⟨_, _, -, apart'⟩ :=
    (reach₁.step hs).conducted (J := Indexed) List.nodup_nil (indexed_kept _)
  obtain ⟨_, _, a', r', _, _, history, taken⟩ := reach₁.performs hs
  rw [now] at history
  cases history
  exact Action.spared taken.performs spares apart apart'

theorem Machine.Reaches.forgiven (reach : (Machine.start setting jobs).Reaches m)
    (hs : m.step c = some m')
    (leaves : m'.history = ⟨c, .leave mode key before result, ()⟩ :: m.history)
    {own : List History} (ho : (m.history.deeds c).head? = some own) {p : ProducerId}
    {error : ResolveError} (fails : spoiled? own = some (p, error)) :
    result = .error error ∧ runs own = [(p, .error error)] ∧
      (m.history.active c).head? = some (key, some p) ∧
        ∃ slot n, lookup? own = some (slot, n) ∧
          m'.Unmarked (Machine.start setting jobs) c key slot p (m'.history :: own) := by
  have reach' := reach.step hs
  obtain ⟨keys, calls, conducted, traced⟩ := reach.traced
  obtain ⟨a, r, calls', keys', taken, history, conducted'⟩ := conducted.step rfl hs (told_plain _)
  have traced' := traced_kept _ taken traced
  rw [← history] at traced'
  rw [leaves] at history
  cases history
  obtain ⟨call, hcs, rfl, ends⟩ := taken.leaves
  have shows := traced.shows c
  have active := traced.active c
  have nested := conducted.tenure.nested c
  rw [hcs] at shows active nested
  have mem := List.mem_of_mem_head? ho
  generalize m.history.deeds c = ds at shows ho
  cases shows with
  | cons comes _ =>
      cases ho
      obtain ⟨offered, ran, stage, slot, n, found, quiet⟩ := comes.spoiled fails
      have same : result = .error error := by
        generalize call.stage = σ at stage ends
        cases ends with
        | failed =>
            cases stage
            rfl
        | _ => cases stage
      have released {id : SlotId} (indexed : m'.store.slotOf? call.key = some id) :=
        conducted'.tenure.released traced' nested (Function.update_self ..) indexed
      refine ⟨same, ran, ?_, slot, n, found, ?_, fun id => released, fun vacant unseen => ?_⟩
      · rw [active, List.map_cons, List.head?_cons, offered]
      · refine List.forall_mem_cons.2 ⟨?_, fun x hx => ?_⟩
        · rw [leaves]
          exact reach'.spared (by rw [leaves]) ⟨_, _, _, rfl⟩ (.inr trivial)
        · have early := (History.suffix_of_deeds mem hx).trans
            (Machine.Reaches.step .start hs).suffix
          exact reach'.spared early (comes.mine x hx) (quiet x hx)
      · refine reach'.indistinct vacant fun id indexed d before ho n found => ?_
        by_cases hd : d = c
        · subst hd
          exact (released indexed).2 before ho n found
        · exact unseen id indexed d hd before ho n found

/-- Calls that fail leave no half of a registration, though others may find its gate held for a
while, and a registration whose producer fails stands. -/
theorem failed_calls_forgiven (reach : (Machine.start setting jobs).Reaches m) :
    m.Forgives setting (Machine.start setting jobs) where
  mismatched _ _ _ _ _ registers := registers.mismatched
  refused _ _ _ _ _ registers same _ _ _ _ := registers.refused same
  eager _ _ _ _ _ deferred := ⟨only_registerSync deferred, only_registerAsync deferred⟩
  noticed _ _ _ _ held hs := Machine.step_freed held hs
  failed _ _ _ _ _ _ _ _ _ hs leaves ho fails := reach.forgiven hs leaves ho fails
  stands _ _ _ _ _ _ _ _ hs fails he := reach.stands hs fails he

end Reached

def badgeKey : Key := ⟨"app::Badge", "Badge"⟩

def linkKey : Key := ⟨"app::Link", "Link"⟩

def badgeSetting : Setting where
  observers := 0
  accessor key :=
    ⟨if key = badgeKey then .singleton else .lazySingleton,
      fun _ run => .finish (if run = 1 then .error (.producer "expired") else .ok ⟨none, []⟩)⟩

def badgeStart : Machine := Machine.start badgeSetting
  [[⟨.inl (.resolve badgeKey), .plain⟩, ⟨.inl (.resolve linkKey), .plain⟩]]

/-- A badge that is never issued, and one that a client asks for on a thread that drives a runtime
alone. -/
def badgeJobs : List (List Demand) :=
  [[⟨.inr (.registerAsync badgeKey .singletonAsync fun _ =>
      .finish (.error (.producer "expired"))), .multi⟩],
    [⟨.inl (.register badgeKey .singleton fun _ => .finish (.ok ⟨none, []⟩)), .current⟩]]

theorem badge_is_refused_on_account_of_a_failure :
    ∃ m m', (Machine.start unwatched badgeJobs).Reaches m ∧
      m.clients[0]? = some ⟨.empty, .done [.resolved (.error (.producer "expired"))]⟩ ∧
        m.store.entryOf? badgeKey = none ∧ m.Reaches m' ∧
          m'.clients[1]? =
            some ⟨.empty, .done [.resolved (.error (.blockingInAsyncContext "Badge"))]⟩ ∧
            ∃ inst w,
              inTurn unwatched 1 badgeJobs[1] .empty [] = some ([.resolved (.ok inst)], w) := by
  have failed : (Machine.start unwatched badgeJobs).follow
      (List.replicate 6 0 ++ List.replicate 5 1 ++ List.replicate 4 0) = some _ := rfl
  exact ⟨_, _, Machine.reaches_of_follow failed, rfl, rfl, @Machine.reaches_of_follow _ _ [1] rfl,
    rfl, _, _, rfl⟩

def badgeMachine (steps : Nat) : Machine :=
  (badgeStart.follow (List.replicate steps 0)).getD badgeStart

def linkEntry : Entry :=
  ⟨linkKey, .lazySingleton, 1, .lazySingleton
    ⟨.accessor linkKey, (badgeSetting.accessor linkKey).script .sync⟩⟩

/-- The badge leaves a slot that nobody can tell from none, and the link stands. -/
theorem badge_is_gone_and_link_stands :
    badgeStart.Reaches (badgeMachine 18) ∧ (badgeMachine 9).store.slotOf? badgeKey = some 0 ∧
      (badgeMachine 9).Indistinct ((badgeMachine 9).without badgeKey) ∧
        (badgeMachine 19).Stands linkKey linkEntry (.accessor linkKey) := by
  have reach (n : Nat) (h : badgeStart.follow (List.replicate n 0) = some (badgeMachine n)) :
      badgeStart.Reaches (badgeMachine n) := Machine.reaches_of_follow h
  refine ⟨reach 18 rfl, rfl, ?_, ?_⟩
  · obtain ⟨-, -, -, slot, n, -, unmarked⟩ :=
      (failed_calls_forgiven (reach 8 rfl)).failed 0 (badgeMachine 9) .sync badgeKey []
        (.error (.producer "expired")) _ (.accessor badgeKey) (.producer "expired") rfl rfl rfl rfl
    refine unmarked.hidden rfl fun id _ d hd before ho => ?_
    have alone : ∀ p ∈ (badgeMachine 9).history, p.client = 0 := by decide +kernel
    rw [History.deeds_eq_nil fun p hp => by rw [alone p hp]; exact Ne.symm hd] at ho
    cases ho
  · exact (failed_calls_forgiven (reach 18 rfl)).stands 0 (badgeMachine 19) linkKey linkEntry
      (.accessor linkKey) 1 (.error (.producer "expired")) (.producer "expired") rfl rfl rfl

end Wiring.Registry
