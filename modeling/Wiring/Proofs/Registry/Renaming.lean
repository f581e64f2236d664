import Wiring.Proofs.Registry.Requesting

/-!
The numbers of slots do not matter. A program passes on the slots that it has learned and looks into
none of them, so with every slot renamed it goes on in the same way. Each call may learn its slot
under a renaming of its own, which is given up when the call comes back.
-/
namespace Wiring.Registry

abbrev Renaming := SlotId → SlotId

/-- A renaming for every layer of calls, the innermost first, and for what is outside all calls. -/
abbrev Layers := Nat → Renaming

def Layers.outer (σ : Layers) : Layers := fun i => σ (i + 1)

/-- One more layer inside the others, which leaves everything alone. -/
def Layers.under (σ : Layers) : Layers := fun i => if i = 0 then id else σ (i - 1)

def Entry.move (f : Renaming) (e : Entry) : Entry := { e with slot := f e.slot }

namespace Action

def move (f : Renaming) : Action → Action
  | readEntry slot => readEntry (f slot)
  | publish slot entry => publish (f slot) (entry.move f)
  | tryGate slot => tryGate (f slot)
  | takeGate slot => takeGate (f slot)
  | freeGate slot => freeGate (f slot)
  | readCell slot => readCell (f slot)
  | claimCell slot => claimCell (f slot)
  | fillCell slot inst => fillCell (f slot) inst
  | freeCell slot => freeCell (f slot)
  | beginRun slot key producer => beginRun (f slot) key producer
  | endRun slot key producer run outcome => endRun (f slot) key producer run outcome
  | a => a

def moveResponse (f : Renaming) : (a : Action) → a.Response → (a.move f).Response
  | claimSlot _, slot => f slot
  | findEntry _, found => found.map (Entry.move f)
  | readEntry _, found => found.map (Entry.move f)
  | publish .., entry => entry.move f
  | enter .., r | leave .., r | countEntries, r | clearEntries, r | tryGate _, r | takeGate _, r
  | freeGate _, r | readCell _, r | claimCell _, r | fillCell .., r | freeCell _, r
  | newProducer, r | beginRun .., r | endRun .., r | observe .., r | note _, r | pause, r
  | yield, r => r

/-- How the layers change where a step begins or ends a call. -/
def Enters : (a : Action) → a.Response → Layers → Layers → Prop
  | enter .., .ok _, σ, σ' => σ'.outer = σ
  | leave .., _, σ, σ' => σ' = σ.outer
  | _, _, σ, σ' => σ' = σ

end Action

def Performed.move (f : Renaming) (p : Performed) : Performed :=
  ⟨p.client, p.action.move f, p.action.moveResponse f p.response⟩

namespace Program

variable {α β γ δ : Type}

/-- `q` takes the steps of `p` with slots renamed, and `post` is true of what they come to. -/
def Like : Program α → Layers → Program β → (Layers → α → β → Prop) → Prop
  | done a, σ, q, post => ∃ b, q = done b ∧ post σ a b
  | step a next, σ, q, post => ∃ next', q = step (a.move (σ 0)) next' ∧
      ∀ r σ', a.Enters r σ σ' → (next r).Like σ' (next' (a.moveResponse (σ 0) r)) post

/-- The layers are what they were, and `R` holds of the two values. -/
def Back (σ : Layers) (R : α → β → Prop) (σ' : Layers) (a : α) (b : β) : Prop := σ' = σ ∧ R a b

variable {σ : Layers} {post : Layers → α → β → Prop}

theorem like_pure {a : α} {b : β} (h : post σ a b) : (pure a : Program α).Like σ (pure b) post :=
  ⟨b, rfl, h⟩

theorem like_bind {p : Program γ} {q : Program δ} {k : γ → Program α} {k' : δ → Program β}
    (h : p.Like σ q fun σ' a b => (k a).Like σ' (k' b) post) :
    (p >>= k).Like σ (q >>= k') post := by
  induction p generalizing σ q with
  | done a =>
      obtain ⟨b, rfl, h⟩ := h
      exact h
  | step a next ih =>
      obtain ⟨next', rfl, h⟩ := h
      exact ⟨fun r => (next' r).bind k', rfl, fun r σ' enters => ih r (h r σ' enters)⟩

theorem Like.mono {p : Program α} {q : Program β} {post' : Layers → α → β → Prop}
    (h : p.Like σ q post) (imp : ∀ σ a b, post σ a b → post' σ a b) : p.Like σ q post' := by
  induction p generalizing σ q with
  | done a =>
      obtain ⟨b, rfl, h⟩ := h
      exact ⟨b, rfl, imp _ _ _ h⟩
  | step a next ih =>
      obtain ⟨next', rfl, h⟩ := h
      exact ⟨next', rfl, fun r σ' enters => ih r (h r σ' enters)⟩

/-- Parts that come back to the layer which they began in, one after another. -/
theorem Like.bind {p : Program γ} {q : Program δ} {k : γ → Program α} {k' : δ → Program β}
    {R : γ → δ → Prop} (h : p.Like σ q (Back σ R))
    (hk : ∀ a b, R a b → (k a).Like σ (k' b) post) : (p >>= k).Like σ (q >>= k') post := by
  refine like_bind (h.mono fun σ' a b back => ?_)
  obtain ⟨rfl, hr⟩ := back
  exact hk a b hr

theorem Like.return {p : Program γ} {q : Program γ} (h : p.Like σ q (Back σ Eq)) (f : γ → α) :
    Like (return f (← p)) σ (return f (← q)) (Back σ Eq) :=
  h.bind fun _ _ same => like_pure ⟨rfl, congrArg f same⟩

end Program

def Action.Stays (a : Action) : Prop := ∀ r σ σ', a.Enters r σ σ' → σ' = σ

namespace Program

variable {α β : Type} {σ : Layers} {post : Layers → α → β → Prop}

theorem like_step {a : Action} (stays : a.Stays) {k : a.Response → Program α}
    {k' : (a.move (σ 0)).Response → Program β}
    (h : ∀ r, (k r).Like σ (k' (a.moveResponse (σ 0) r)) post) :
    (perform a >>= k).Like σ (perform (a.move (σ 0)) >>= k') post := by
  refine ⟨k', rfl, fun r σ' enters => ?_⟩
  rw [stays r σ σ' enters]
  exact h r

end Program

def Runner.Alike (runner : Runner) : Prop :=
  ∀ runtime {m : Mode} (script : Script m) σ,
    (runner runtime script).Like σ (runner runtime script) (Program.Back σ Eq)

namespace Program

variable {setting : Setting} {runner : Runner} {runtime : Runtime} {key : Key} {σ : Layers}

theorem like_announce (notice : Notice) :
    (announce setting.observers notice).Like σ (announce setting.observers notice)
      (Back σ Eq) := by
  unfold announce
  induction List.range setting.observers with
  | nil => exact like_pure ⟨rfl, rfl⟩
  | cons i is ih =>
      exact like_step (a := .observe i notice) (fun _ _ _ same => same) fun _ => ih

theorem like_waitFor {body body' : Runtime → Program Resolved}
    (h : ∀ inside, (body inside).Like σ (body' inside) (Back σ Eq)) :
    (waitFor runtime key body).Like σ (waitFor runtime key body') (Back σ Eq) := by
  cases runtime with
  | currentThread => exact like_pure ⟨rfl, rfl⟩
  | none | multiThread => exact h .multiThread

theorem like_runProducer (alike : runner.Alike) (slot : SlotId) {m : Mode} (producer : Producer m) :
    (runProducer setting runner runtime slot key producer).Like σ
      (runProducer setting runner runtime (σ 0 slot) key producer) (Back σ Eq) := by
  rw [runProducer_eq, runProducer_eq]
  refine (like_announce _).bind fun _ _ _ => ?_
  refine like_step (a := .beginRun slot key producer.id) (fun _ _ _ same => same) fun run => ?_
  refine (alike runtime (producer.script run) σ).bind fun outcome _ same => ?_
  subst same
  refine like_step (a := .endRun slot key producer.id run outcome) (fun _ _ _ same => same)
    fun result => ?_
  cases result with
  | ok inst => exact (like_announce _).bind fun _ _ _ => like_pure ⟨rfl, rfl⟩
  | error e => exact (like_announce _).bind fun _ _ _ => like_pure ⟨rfl, rfl⟩

theorem like_initOnce {slot : SlotId} {body body' : Program Resolved}
    (h : body.Like σ body' (Back σ Eq)) :
    (initOnce slot body).Like σ (initOnce (σ 0 slot) body') (Back σ Eq) := by
  unfold initOnce
  refine like_step (a := .claimCell slot) (fun _ _ _ same => same) fun cached => ?_
  cases cached with
  | some inst => exact like_pure ⟨rfl, rfl⟩
  | none =>
      refine h.bind fun result _ same => ?_
      subst same
      cases result with
      | ok inst =>
          exact like_step (a := .fillCell slot inst) (fun _ _ _ same => same) fun _ =>
            like_pure ⟨rfl, rfl⟩
      | error e =>
          exact like_step (a := .freeCell slot) (fun _ _ _ same => same) fun _ =>
            like_pure ⟨rfl, rfl⟩

theorem like_readSync (alike : runner.Alike) (e : Entry) :
    (readSync setting runner runtime e).Like σ (readSync setting runner runtime (e.move (σ 0)))
      (Back σ Eq) := by
  obtain ⟨key, policy, slot, resolution⟩ := e
  cases resolution with
  | factory p => exact like_runProducer alike slot p
  | singleton inst | singletonAsync inst => exact like_pure ⟨rfl, rfl⟩
  | lazySingleton p => exact like_initOnce (like_runProducer alike slot p)
  | factoryAsync p => exact like_waitFor fun _ => like_runProducer alike slot p
  | lazySingletonAsync p =>
      refine like_step (a := .readCell slot) (fun _ _ _ same => same) fun cached => ?_
      cases cached with
      | some inst => exact like_pure ⟨rfl, rfl⟩
      | none => exact like_waitFor fun _ => like_initOnce (like_runProducer alike slot p)

theorem like_readAsync (alike : runner.Alike) (e : Entry) :
    (readAsync setting runner runtime e).Like σ (readAsync setting runner runtime (e.move (σ 0)))
      (Back σ Eq) := by
  obtain ⟨key, policy, slot, resolution⟩ := e
  cases resolution with
  | factoryAsync p => exact like_runProducer alike slot p
  | singleton inst | singletonAsync inst => exact like_pure ⟨rfl, rfl⟩
  | lazySingletonAsync p => exact like_initOnce (like_runProducer alike slot p)
  | factory p => exact like_readSync alike ⟨key, policy, slot, .factory p⟩
  | lazySingleton p => exact like_readSync alike ⟨key, policy, slot, .lazySingleton p⟩

def Moved (f : Renaming) (r r' : Except ResolveError Entry) : Prop := r' = r.map (Entry.move f)

theorem like_publishEntry (e : Entry) :
    (publishEntry setting e).Like σ (publishEntry setting (e.move (σ 0)))
      (Back σ fun e e' => e' = e.move (σ 0)) := by
  unfold publishEntry
  refine like_step (a := .publish e.slot e) (fun _ _ _ same => same) fun published => ?_
  exact (like_announce _).bind fun _ _ _ => like_pure ⟨rfl, rfl⟩

theorem like_published (e : Entry) :
    Like (return .ok (← publishEntry setting e)) σ
      (return .ok (← publishEntry setting (e.move (σ 0)))) (Back σ (Moved (σ 0))) :=
  (like_publishEntry e).bind fun _ _ moved => like_pure ⟨rfl, congrArg Except.ok moved⟩

theorem like_eager (alike : runner.Alike) (slot : SlotId) {m : Mode} (producer : Producer m)
    (policy : Policy) (resolution : Instance → Resolution) :
    (eagerly setting runner runtime slot key policy producer resolution).Like σ
      (eagerly setting runner runtime (σ 0 slot) key policy producer resolution)
      (Back σ (Moved (σ 0))) := by
  refine (like_runProducer alike slot producer).bind fun result _ same => ?_
  subst same
  cases result with
  | ok inst => exact like_published ⟨key, policy, slot, resolution inst⟩
  | error e => exact like_pure ⟨rfl, rfl⟩

theorem like_registerSyncGated (alike : runner.Alike) (slot : SlotId) (policy : Policy)
    (producer : Producer .sync) :
    (registerSyncGated setting runner runtime slot key policy producer).Like σ
      (registerSyncGated setting runner runtime (σ 0 slot) key policy producer)
      (Back σ (Moved (σ 0))) := by
  unfold registerSyncGated
  refine like_step (a := .readEntry slot) (fun _ _ _ same => same) fun found => ?_
  cases found with
  | some existing => exact like_pure ⟨rfl, rfl⟩
  | none =>
      cases policy with
      | factory => exact like_published ⟨key, _, slot, .factory producer⟩
      | lazySingleton => exact like_published ⟨key, _, slot, .lazySingleton producer⟩
      | singleton => exact like_eager alike slot producer _ .singleton
      | factoryAsync | singletonAsync | lazySingletonAsync => exact like_pure ⟨rfl, rfl⟩

theorem like_registerAsyncGated (alike : runner.Alike) (slot : SlotId) (policy : Policy)
    (producer : Producer .async) :
    (registerAsyncGated setting runner runtime slot key policy producer).Like σ
      (registerAsyncGated setting runner runtime (σ 0 slot) key policy producer)
      (Back σ (Moved (σ 0))) := by
  unfold registerAsyncGated
  refine like_step (a := .readEntry slot) (fun _ _ _ same => same) fun found => ?_
  cases found with
  | some existing => exact like_pure ⟨rfl, rfl⟩
  | none =>
      cases policy with
      | factoryAsync => exact like_published ⟨key, _, slot, .factoryAsync producer⟩
      | lazySingletonAsync => exact like_published ⟨key, _, slot, .lazySingletonAsync producer⟩
      | singletonAsync => exact like_eager alike slot producer _ .singletonAsync
      | factory | singleton | lazySingleton => exact like_pure ⟨rfl, rfl⟩

theorem like_takeGateSync (slot : SlotId) :
    (takeGateSync runtime slot).Like σ (takeGateSync runtime (σ 0 slot)) (Back σ Eq) := by
  unfold takeGateSync
  refine like_step (a := .tryGate slot) (fun _ _ _ same => same) fun taken => ?_
  cases taken with
  | true => exact like_pure ⟨rfl, rfl⟩
  | false =>
      cases runtime with
      | currentThread => exact like_pure ⟨rfl, rfl⟩
      | none | multiThread =>
          exact like_step (a := .takeGate slot) (fun _ _ _ same => same) fun _ =>
            like_pure ⟨rfl, rfl⟩

theorem like_registerSync (alike : runner.Alike) (slot : SlotId) (policy : Policy)
    (producer : Producer .sync) :
    (registerSync setting runner runtime slot key policy producer).Like σ
      (registerSync setting runner runtime (σ 0 slot) key policy producer)
      (Back σ (Moved (σ 0))) := by
  unfold registerSync
  refine (like_takeGateSync slot).bind fun taken _ same => ?_
  subst same
  cases taken with
  | true =>
      refine (like_registerSyncGated alike slot policy producer).bind fun r r' moved => ?_
      exact like_step (a := .freeGate slot) (fun _ _ _ same => same) fun _ =>
        like_pure ⟨rfl, moved⟩
  | false => exact like_pure ⟨rfl, rfl⟩

theorem like_registerAsync (alike : runner.Alike) (slot : SlotId) (policy : Policy)
    (producer : Producer .async) :
    (registerAsync setting runner runtime slot key policy producer).Like σ
      (registerAsync setting runner runtime (σ 0 slot) key policy producer)
      (Back σ (Moved (σ 0))) := by
  unfold registerAsync
  refine like_step (a := .takeGate slot) (fun _ _ _ same => same) fun _ => ?_
  refine (like_registerAsyncGated alike slot policy producer).bind fun r r' moved => ?_
  exact like_step (a := .freeGate slot) (fun _ _ _ same => same) fun _ => like_pure ⟨rfl, moved⟩

/-- A call goes on in the same way under a renaming of its own, which nothing outside it needs. -/
theorem like_guarded {mode : Mode} {offer : Option ProducerId} {body : Program Resolved}
    (h : ∀ σ, body.Like σ body (Back σ Eq)) :
    (guarded mode key offer body).Like σ (guarded mode key offer body) (Back σ Eq) := by
  unfold guarded
  refine ⟨_, rfl, fun r σ' enters => ?_⟩
  cases r with
  | error e =>
      cases enters
      exact like_pure ⟨rfl, rfl⟩
  | ok before =>
      refine (h σ').bind fun result _ same => ?_
      subst same
      refine ⟨_, rfl, fun _ σ'' leaves => ?_⟩
      refine like_pure ⟨?_, rfl⟩
      rw [leaves]
      exact enters

theorem like_checked {p q : Program Resolved} (h : p.Like σ q (Back σ Eq)) :
    Like (return checked key (← p)) σ (return checked key (← q)) (Back σ Eq) :=
  h.return (checked key)

theorem like_registering {register : SlotId → Program (Except ResolveError Entry)}
    {read : Entry → Program Resolved}
    (hreg : ∀ slot, (register slot).Like σ (register (σ 0 slot)) (Back σ (Moved (σ 0))))
    (hread : ∀ e : Entry, (read e).Like σ (read (e.move (σ 0))) (Back σ Eq)) :
    (registering key register read).Like σ (registering key register read) (Back σ Eq) := by
  have read_found : ∀ r r' : Except ResolveError Entry, Moved (σ 0) r r' →
      (readRegistered key read r).Like σ (readRegistered key read r') (Back σ Eq) := by
    intro r r' moved
    cases r with
    | ok e =>
        cases moved
        exact like_checked (hread e)
    | error e =>
        cases moved
        exact like_pure ⟨rfl, rfl⟩
  refine like_step (a := .claimSlot key) (fun _ _ _ same => same) fun slot => ?_
  refine like_step (a := .readEntry slot) (fun _ _ _ same => same) fun found => ?_
  cases found with
  | some e => exact read_found (.ok e) (.ok (e.move (σ 0))) rfl
  | none => exact (hreg slot).bind read_found

theorem like_finding {read : Entry → Program Resolved}
    (hread : ∀ e : Entry, (read e).Like σ (read (e.move (σ 0))) (Back σ Eq)) :
    (finding key read).Like σ (finding key read) (Back σ Eq) := by
  refine like_step (a := .findEntry key) (fun _ _ _ same => same) fun found => ?_
  cases found with
  | some e => exact like_checked (hread e)
  | none => exact like_pure ⟨rfl, rfl⟩

theorem like_entryPoint (alike : runner.Alike) {m : Mode} (x : EntryPoint m) :
    (x.program setting runner runtime key).Like σ (x.program setting runner runtime key)
      (Back σ Eq) := by
  cases x with
  | read =>
      cases m with
      | sync => exact like_guarded fun _ => like_finding (like_readSync alike)
      | async => exact like_guarded fun _ => like_finding (like_readAsync alike)
  | register policy producer =>
      cases m with
      | sync =>
          simp only [EntryPoint.program, getOrRegister]
          split
          · exact like_pure ⟨rfl, rfl⟩
          · exact like_guarded fun _ => like_registering
              (fun slot => like_registerSync alike slot policy producer) (like_readSync alike)
      | async =>
          simp only [EntryPoint.program, getOrRegisterAsync]
          split
          · exact like_guarded fun _ => like_registering
              (fun slot => like_registerAsync alike slot policy producer) (like_readAsync alike)
          · exact like_pure ⟨rfl, rfl⟩

theorem like_stateOf : (stateOf key).Like σ (stateOf key) (Back σ Eq) := by
  unfold stateOf
  refine like_step (a := .findEntry key) (fun _ _ _ same => same) fun found => ?_
  cases found with
  | none => exact like_pure ⟨rfl, rfl⟩
  | some e =>
      obtain ⟨key, policy, slot, resolution⟩ := e
      cases resolution with
      | lazySingletonAsync p =>
          refine like_step (a := .readCell slot) (fun _ _ _ same => same) fun cached => ?_
          cases cached <;> exact like_pure ⟨rfl, rfl⟩
      | _ => exact like_pure ⟨rfl, rfl⟩

theorem like_reset : (reset setting).Like σ (reset setting) (Back σ Eq) := by
  unfold reset
  exact like_step (a := .clearEntries) (fun _ _ _ same => same) fun _ => like_announce _

theorem like_request (alike : runner.Alike) {m : Mode} (request : Request m) :
    (request.program setting runner runtime).Like σ (request.program setting runner runtime)
      (Back σ Eq) := by
  have entry {m : Mode} (key : Key) (x : EntryPoint m) :
      Like (return Reply.resolved (← x.program setting runner runtime key)) σ
        (return Reply.resolved (← x.program setting runner runtime key)) (Back σ Eq) :=
    (like_entryPoint alike x).return Reply.resolved
  cases request with
  | get key => exact entry key (m := .sync) .read
  | getAsync key => exact entry key (m := .async) .read
  | resolve key => exact entry key (m := .sync) (.register _ ⟨.accessor key, _⟩)
  | resolveAsync key => exact entry key (m := .async) (.register _ ⟨.accessor key, _⟩)
  | register key policy script =>
      exact like_step (a := .newProducer) (fun _ _ _ same => same) fun id =>
        entry key (m := .sync) (.register policy ⟨id, script⟩)
  | registerAsync key policy script =>
      exact like_step (a := .newProducer) (fun _ _ _ same => same) fun id =>
        entry key (m := .async) (.register policy ⟨id, script⟩)
  | state key => exact like_stateOf.return Reply.state
  | policyOf key =>
      refine like_step (a := .findEntry key) (fun _ _ _ same => same) fun found => ?_
      cases found <;> exact like_pure ⟨rfl, rfl⟩
  | contains key =>
      refine like_step (a := .findEntry key) (fun _ _ _ same => same) fun found => ?_
      cases found <;> exact like_pure ⟨rfl, rfl⟩
  | len | isEmpty | describe =>
      exact like_step (a := .countEntries) (fun _ _ _ same => same) fun _ => like_pure ⟨rfl, rfl⟩
  | reset => exact like_reset.bind fun _ _ _ => like_pure ⟨rfl, rfl⟩
  | pause =>
      exact like_step (a := .pause) (fun _ _ _ same => same) fun _ => like_pure ⟨rfl, rfl⟩
  | yield =>
      exact like_step (a := .yield) (fun _ _ _ same => same) fun _ => like_pure ⟨rfl, rfl⟩

theorem like_script {call : Request .sync → Program Reply} {await : Request .async → Program Reply}
    (hcall : ∀ r σ, (call r).Like σ (call r) (Back σ Eq))
    (hawait : ∀ r σ, (await r).Like σ (await r) (Back σ Eq)) {m : Mode} (σ : Layers) :
    (script : Script m) →
    (script.program call await).Like σ (script.program call await) (Back σ Eq)
  | .finish _ => like_pure ⟨rfl, rfl⟩
  | .note written next =>
      like_step (a := .note written) (fun _ _ _ same => same) fun _ =>
        like_script hcall hawait σ next
  | .call request next =>
      (hcall request σ).bind fun reply _ same => by
        subst same
        exact like_script hcall hawait σ (next reply)
  | .await request next =>
      (hawait request σ).bind fun reply _ same => by
        subst same
        exact like_script hcall hawait σ (next reply)

theorem alike_runScript (level : Nat) : (runScript setting level).Alike := by
  induction level with
  | zero => exact fun _ _ _ _ => like_pure ⟨rfl, rfl⟩
  | succ level ih =>
      intro runtime m script σ
      exact like_script (fun r _ => like_request ih r) (fun r _ => like_request ih r) σ script

/-- What a client does does not depend on the numbers of slots. -/
theorem like_work (demands : List Demand) :
    (work setting demands).Like σ (work setting demands) (Back σ Eq) := by
  unfold work
  induction demands with
  | nil => exact like_pure ⟨rfl, rfl⟩
  | cons d demands ih =>
      simp only [List.mapM_cons]
      have first : (d.program setting).Like σ (d.program setting) (Back σ Eq) := by
        obtain ⟨request | request, context⟩ := d
        · exact like_request (alike_runScript maxDepth) request
        · exact like_request (alike_runScript maxDepth) request
      refine first.bind fun reply _ same => ?_
      subst same
      exact ih.return (reply :: ·)

end Program

end Wiring.Registry
