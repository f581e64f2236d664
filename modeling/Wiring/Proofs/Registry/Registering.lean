import Wiring.Proofs.Registry.Resolving

/-!
What registrations and the four entry points come to. A call that the trail does not refuse looks up
or registers the entry of its key, reads it and comes back, and what it comes back with is among
the results that `Q` is true of.
-/
namespace Wiring.Registry

variable {terms : Terms} {setting : Setting} {key : Key} {mode : Mode}
  {offer : Option ProducerId} {calls : List Call} {runner runner' : Runner} {runtime : Runtime}
  {O : Outcome → Prop} {Q : Resolved → Prop}

/-- What a registration that was handed `producer` may publish. -/
structure Entry.Registers {m : Mode} (e : Entry) (key : Key) (policy : Policy)
    (producer : Producer m) (O : Outcome → Prop) : Prop where
  key : e.key = key
  policy : e.policy = policy
  sound : e.Sound
  maker : ∀ p, e.resolution.maker? = some p → p = ⟨m, producer⟩
  made : ∀ inst, e.resolution.instance? = some inst →
    ∃ run o, O o ∧ Made e.key producer.id run o (.ok inst)

/-- What calls for `key` need to know of the entries they may find. -/
structure Lookup (terms : Terms) (runner runner' : Runner) (key : Key) (mode : Mode)
    (offer : Option ProducerId) (calls : List Call) (O : Outcome → Prop) (Q : Resolved → Prop) :
    Prop where
  runs : ∀ e : Entry, e.Suits terms key e.slot → ∀ p, e.resolution.maker? = some p →
    p.2.Abides terms runner runner' key mode offer calls O
  gives : ∀ e : Entry, e.Suits terms key e.slot → e.Gives terms mode O Q

/-- What registrations of `key` need to know of what is handed to them. -/
structure Offer (terms : Terms) (runner runner' : Runner) (key : Key) (mode : Mode)
    (calls : List Call) (policy : Policy) {m : Mode} (producer : Producer m)
    (O : Outcome → Prop) (Q : Resolved → Prop) : Prop where
  runs : producer.Abides terms runner runner' key mode (some producer.id) calls O
  admits : ∀ e : Entry, e.Registers key policy producer O → terms.entry e
  fails : ∀ error, O (.error error) → Q (.error error)
  held : terms.alone = none → terms.driven → Q (.error (.blockingInAsyncContext key.name))

/-- With the gate of `slot` held, the entry of the key is there, or an eager run of it failed. -/
def Settles (terms : Terms) (key : Key) (mode : Mode) (offer : Option ProducerId)
    (calls : List Call) (Q : Resolved → Prop) (slot : SlotId) (calls' : List Call) :
    Except ResolveError Entry → Prop
  | .ok e => e.Suits terms key slot ∧ ∃ s, calls' = ⟨key, mode, offer, s⟩ :: calls ∧
      (s = .passed e ∨ s = .announcing e terms.observers)
  | .error error => calls' = ⟨key, mode, offer, .tried slot (.error error)⟩ :: calls ∧
      Q (.error error)

def Finds (terms : Terms) (key : Key) (mode : Mode) (offer : Option ProducerId)
    (calls : List Call) (Q : Resolved → Prop) (calls' : List Call) :
    Except ResolveError Entry → Prop
  | .ok e => e.Suits terms key e.slot ∧ calls' = ⟨key, mode, offer, .reading e⟩ :: calls
  | .error error => (∃ s, calls' = ⟨key, mode, offer, s⟩ :: calls ∧ s.Ends key (.error error)) ∧
      Q (.error error)

namespace Program

/-- What an eager registration does with the gate held. -/
def eagerly (setting : Setting) (runner : Runner) (runtime : Runtime) (slot : SlotId) (key : Key)
    (policy : Policy) {m : Mode} (producer : Producer m) (resolution : Instance → Resolution) :
    Program (Except ResolveError Entry) := do
  match ← runProducer setting runner runtime slot key producer with
  | .ok inst => return .ok (← publishEntry setting ⟨key, policy, slot, resolution inst⟩)
  | .error e => return .error e

theorem abides_publish_vacant (hobs : terms.observers = setting.observers) {slot : SlotId}
    {e : Entry} (h : e.Suits terms key slot) (hi : e.resolution.instance? = none)
    (hp : e.resolution.producer? = offer) :
    Abides terms (return .ok (← publishEntry setting e))
      (⟨key, mode, offer, .vacant slot⟩ :: calls) (return .ok (← publishEntry setting e))
      (Settles terms key mode offer calls Q slot) := by
  obtain rfl := h.slot
  refine abides_bind (abides_publishEntry hobs h.key rfl (fun r s' => ⟨?_, ?_⟩) ?_)
  · intro hn
    cases hn
    exact ⟨rfl, rfl⟩
  · intro given
    obtain ⟨hr, rfl⟩ := given
    subst r
    exact .publish h hi hp
  · exact abides_pure ⟨h, _, rfl, .inr rfl⟩

theorem abides_publish_made (hobs : terms.observers = setting.observers) {slot : SlotId}
    {e : Entry} (h : e.Suits terms key slot) {inst : Instance}
    (hi : e.resolution.instance? = some inst) :
    Abides terms (return .ok (← publishEntry setting e))
      (⟨key, mode, offer, .tried slot (.ok inst)⟩ :: calls)
      (return .ok (← publishEntry setting e)) (Settles terms key mode offer calls Q slot) := by
  obtain rfl := h.slot
  refine abides_bind (abides_publishEntry hobs h.key rfl (fun r s' => ⟨?_, ?_⟩) ?_)
  · intro hn
    cases hn
    exact ⟨rfl, rfl⟩
  · intro given
    obtain ⟨hr, rfl⟩ := given
    subst r
    exact .publishMade h hi
  · exact abides_pure ⟨h, _, rfl, .inr rfl⟩

variable {policy : Policy}

theorem abides_eager (hobs : terms.observers = setting.observers) {m : Mode}
    {producer : Producer m} {slot : SlotId} {resolution : Instance → Resolution}
    (hp : ∀ inst, (resolution inst).policy = policy)
    (hi : ∀ inst, (resolution inst).instance? = some inst)
    (hm : ∀ inst, (resolution inst).maker? = none)
    (driven : runtime = .currentThread → terms.driven)
    (given : Offer terms runner runner' key mode calls policy producer O Q) :
    Abides terms (eagerly setting runner runtime slot key policy producer resolution)
      (⟨key, mode, some producer.id, .vacant slot⟩ :: calls)
      (eagerly setting runner' runtime slot key policy producer resolution)
      (Settles terms key mode (some producer.id) calls Q slot) := by
  refine abides_bind (abides_runProducer (runs_vacant rfl)
    (fun run => given.runs runtime driven run _ rfl) ?_)
  intro run o r ho hr
  cases r with
  | ok inst =>
      have sound : Entry.Sound ⟨key, policy, slot, resolution inst⟩ :=
        ⟨hp inst, fun i h => by cases (hi inst).symm.trans h; exact hr.key⟩
      refine abides_publish_made hobs ⟨rfl, rfl, sound, given.admits _ ?_⟩ (hi inst)
      refine ⟨rfl, rfl, sound, fun p h => by simp [hm] at h, fun i h => ?_⟩
      cases (hi inst).symm.trans h
      exact ⟨run, o, ho, hr⟩
  | error error =>
      obtain ⟨serial, h⟩ := hr
      cases o with
      | ok payload => cases h
      | error e => cases h; exact abides_pure ⟨rfl, given.fails _ ho⟩

theorem abides_deferred (hobs : terms.observers = setting.observers) {m : Mode}
    {producer : Producer m} {slot : SlotId} {resolution : Resolution}
    (hp : resolution.policy = policy) (hi : resolution.instance? = none)
    (hm : resolution.maker? = some ⟨m, producer⟩)
    (given : Offer terms runner runner' key mode calls policy producer O Q) :
    Abides terms (return .ok (← publishEntry setting ⟨key, policy, slot, resolution⟩))
      (⟨key, mode, some producer.id, .vacant slot⟩ :: calls)
      (return .ok (← publishEntry setting ⟨key, policy, slot, resolution⟩))
      (Settles terms key mode (some producer.id) calls Q slot) := by
  have sound : Entry.Sound ⟨key, policy, slot, resolution⟩ :=
    ⟨hp, fun i h => by simp [hi] at h⟩
  refine abides_publish_vacant hobs ⟨rfl, rfl, sound, given.admits _ ?_⟩ hi
    (by simp [Resolution.producer?, hm])
  exact ⟨rfl, rfl, sound, fun p h => Option.some.inj (h.symm.trans hm),
    fun i h => by simp [hi] at h⟩

theorem abides_registerSyncGated (hobs : terms.observers = setting.observers)
    {producer : Producer .sync} {slot : SlotId} (hs : policy.isAsync = false)
    (driven : runtime = .currentThread → terms.driven)
    (given : Offer terms runner runner' key mode calls policy producer O Q) :
    Abides terms (registerSyncGated setting runner runtime slot key policy producer)
      (⟨key, mode, some producer.id, .gated slot⟩ :: calls)
      (registerSyncGated setting runner' runtime slot key policy producer)
      (Settles terms key mode (some producer.id) calls Q slot) := by
  unfold registerSyncGated
  apply abides_perform_bind (open_own .confirm)
  intro r calls' hm
  obtain ⟨s, hn, rfl⟩ := hm.own_of_idle rfl (by simp)
  cases hn with
  | pass h => exact abides_pure ⟨h, _, rfl, .inl rfl⟩
  | confirm =>
      cases policy with
      | factory | lazySingleton => exact abides_deferred hobs rfl rfl rfl given
      | singleton =>
          exact abides_eager hobs (fun _ => rfl) (fun _ => rfl) (fun _ => rfl) driven given
      | factoryAsync | singletonAsync | lazySingletonAsync =>
          simp [Policy.isAsync, Policy.mode] at hs

theorem abides_registerAsyncGated (hobs : terms.observers = setting.observers)
    {producer : Producer .async} {slot : SlotId} (hs : policy.isAsync = true)
    (driven : runtime = .currentThread → terms.driven)
    (given : Offer terms runner runner' key mode calls policy producer O Q) :
    Abides terms (registerAsyncGated setting runner runtime slot key policy producer)
      (⟨key, mode, some producer.id, .gated slot⟩ :: calls)
      (registerAsyncGated setting runner' runtime slot key policy producer)
      (Settles terms key mode (some producer.id) calls Q slot) := by
  unfold registerAsyncGated
  apply abides_perform_bind (open_own .confirm)
  intro r calls' hm
  obtain ⟨s, hn, rfl⟩ := hm.own_of_idle rfl (by simp)
  cases hn with
  | pass h => exact abides_pure ⟨h, _, rfl, .inl rfl⟩
  | confirm =>
      cases policy with
      | factoryAsync | lazySingletonAsync => exact abides_deferred hobs rfl rfl rfl given
      | singletonAsync =>
          exact abides_eager hobs (fun _ => rfl) (fun _ => rfl) (fun _ => rfl) driven given
      | factory | singleton | lazySingleton => simp [Policy.isAsync, Policy.mode] at hs

theorem abides_freeGate {slot : SlotId} {r : Except ResolveError Entry} {calls' : List Call}
    (h : Settles terms key mode offer calls Q slot calls' r) :
    Abides terms (do perform (.freeGate slot); return r) calls'
      (do perform (.freeGate slot); return r) (Finds terms key mode offer calls Q) := by
  cases r with
  | ok e =>
      obtain ⟨suits, s, rfl, rfl | rfl⟩ := h
      · obtain rfl := suits.slot
        apply abides_perform_bind (open_own .freePassed)
        intro _ _ hm
        obtain ⟨s, hn, rfl⟩ := hm.own_of_idle rfl (by simp)
        cases hn
        exact abides_pure ⟨suits, rfl⟩
      · obtain rfl := suits.slot
        apply abides_perform_bind (open_own .free)
        intro _ _ hm
        obtain ⟨s, hn, rfl⟩ := hm.own_of_idle rfl (by simp)
        cases hn
        exact abides_pure ⟨suits, rfl⟩
  | error error =>
      obtain ⟨rfl, hq⟩ := h
      apply abides_perform_bind (open_own .freeTried)
      intro _ _ hm
      obtain ⟨s, hn, rfl⟩ := hm.own_of_idle rfl (by simp)
      cases hn
      exact abides_pure ⟨⟨_, rfl, .failed⟩, hq⟩

theorem abides_takeGate {slot : SlotId} {α : Type} {p q : Program α}
    {post : List Call → α → Prop}
    (h : p.Abides terms (⟨key, mode, offer, .gated slot⟩ :: calls) q post) :
    Abides terms (do perform (.takeGate slot); p) (⟨key, mode, offer, .missed slot⟩ :: calls)
      (do perform (.takeGate slot); q) post := by
  apply abides_perform_bind (open_own .takeGate)
  intro _ _ hm
  obtain ⟨s, hn, rfl⟩ := hm.own_of_idle rfl (by simp)
  cases hn
  exact h

theorem abides_takeGateSync {slot : SlotId} {post : List Call → Bool → Prop}
    (taken : post (⟨key, mode, offer, .gated slot⟩ :: calls) true)
    (held : terms.alone = none → runtime = .currentThread →
      post (⟨key, mode, offer, .missed slot⟩ :: calls) false) :
    Abides terms (takeGateSync runtime slot) (⟨key, mode, offer, .missed slot⟩ :: calls)
      (takeGateSync runtime slot) post := by
  unfold takeGateSync
  apply abides_perform_bind (open_own .tryGate)
  intro _ _ hm
  obtain ⟨s, hn, rfl⟩ := hm.own_of_idle rfl (by simp)
  cases hn with
  | tryGate => exact abides_pure taken
  | gateHeld h =>
      cases runtime with
      | currentThread => exact abides_pure (held h rfl)
      | none | multiThread => exact abides_takeGate (abides_pure taken)

theorem abides_registerSync (hobs : terms.observers = setting.observers)
    {producer : Producer .sync} {slot : SlotId} (hs : policy.isAsync = false)
    (driven : runtime = .currentThread → terms.driven)
    (given : Offer terms runner runner' key mode calls policy producer O Q) :
    Abides terms (registerSync setting runner runtime slot key policy producer)
      (⟨key, mode, some producer.id, .missed slot⟩ :: calls)
      (registerSync setting runner' runtime slot key policy producer)
      (Finds terms key mode (some producer.id) calls Q) := by
  unfold registerSync
  refine abides_bind (abides_takeGateSync ?_ fun h current => ?_)
  · refine abides_bind ((abides_registerSyncGated hobs hs driven given).mono fun _ _ h => ?_)
    exact abides_freeGate h
  · exact abides_pure ⟨⟨_, rfl, .held⟩, given.held h (driven current)⟩

theorem abides_registerAsync (hobs : terms.observers = setting.observers)
    {producer : Producer .async} {slot : SlotId} (hs : policy.isAsync = true)
    (driven : runtime = .currentThread → terms.driven)
    (given : Offer terms runner runner' key mode calls policy producer O Q) :
    Abides terms (registerAsync setting runner runtime slot key policy producer)
      (⟨key, mode, some producer.id, .missed slot⟩ :: calls)
      (registerAsync setting runner' runtime slot key policy producer)
      (Finds terms key mode (some producer.id) calls Q) := by
  unfold registerAsync
  apply abides_takeGate
  refine abides_bind ((abides_registerAsyncGated hobs hs driven given).mono fun _ _ h => ?_)
  exact abides_freeGate h

theorem checked_eq {r : Resolved} (h : ∀ inst, r = .ok inst → inst.key = key) :
    checked key r = r := by
  cases r with
  | ok inst => simp [checked, h inst rfl]
  | error e => rfl

theorem abides_checked {p q : Program Resolved} {calls' : List Call}
    (h : p.Abides terms calls' q (Finishes key mode offer calls Q)) :
    Abides terms (return checked key (← p)) calls' (return checked key (← q))
      (Finishes key mode offer calls Q) := by
  apply abides_bind
  apply h.mono
  intro calls'' r given
  obtain ⟨s, rfl, he, hk, hq⟩ := given
  apply abides_pure
  rw [checked_eq hk]
  exact ⟨s, rfl, he, hk, hq⟩

/-- A guarded call is refused, or leaves no call of its own behind. -/
theorem abides_guarded {body body' : Program Resolved} (hc : Callable calls)
    (asked : terms.asks (calls.map Call.key) key) (gives : ∀ r, Q r → terms.gives key r)
    (refused : ∀ e, (trailOf calls).refusal? key.name = some e → terms.refuses e → Q (.error e))
    (hbody : (trailOf calls).refusal? key.name = none →
      body.Abides terms (⟨key, mode, offer, .entered⟩ :: calls) body'
        (Finishes key mode offer calls Q)) :
    Abides terms (guarded mode key offer body) calls (guarded mode key offer body')
      fun calls' r => calls' = calls ∧ Q r := by
  unfold guarded
  apply abides_perform_bind (.ask hc asked)
  intro r calls' hm
  cases hm with
  | @own c _ _ _ _ hn => obtain ⟨_, _, _, stage⟩ := c; cases hn
  | refuse _ h _ told => exact abides_pure ⟨rfl, refused _ h told⟩
  | aside _ ha => cases ha
  | enter _ h =>
      apply abides_bind
      apply (hbody h).mono
      intro calls' r given
      obtain ⟨s, rfl, he, -, hq⟩ := given
      refine abides_perform_bind (.move (.leave he (gives _ hq))) fun _ _ hm => ?_
      cases hm with
      | own hn => cases hn
      | aside _ ha => cases ha
      | leave => exact abides_pure ⟨rfl, hq⟩

end Program

end Wiring.Registry
