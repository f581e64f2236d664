import Wiring.Proofs.Registry.Registering

/-!
Requests, scripts and whole clients. Whatever producers do, the four entry points abide by the
conduct of clients, and so does everything that is built from them; scripts never nest deeper than
the resolution trail lets them, so what stands at the bottom of `runScript` is of no account.
-/
namespace Wiring.Registry

/-- The four entry points: those that read an entry, and those that register one where there is
none. -/
inductive EntryPoint : Mode → Type
  | read {m : Mode} : EntryPoint m
  | register {m : Mode} (policy : Policy) (producer : Producer m) : EntryPoint m

namespace EntryPoint

def program (setting : Setting) (runner : Runner) (runtime : Runtime) (key : Key) :
    {m : Mode} → EntryPoint m → Program Resolved
  | .sync, .read => Program.get setting runner runtime key
  | .async, .read => Program.getAsync setting runner runtime key
  | .sync, .register policy producer =>
      Program.getOrRegister setting runner runtime key policy producer
  | .async, .register policy producer =>
      Program.getOrRegisterAsync setting runner runtime key policy producer

def offer {m : Mode} : EntryPoint m → Option ProducerId
  | .read => none
  | .register _ producer => some producer.id

/-- A policy of the one mode was handed to the entry point of the other. -/
def Mismatched {m : Mode} : EntryPoint m → Prop
  | .read => False
  | .register policy _ => policy.mode ≠ m

end EntryPoint

variable {terms : Terms} {setting : Setting} {runner runner' : Runner} {runtime : Runtime}
  {key : Key} {calls : List Call} {O : Outcome → Prop} {Q : Resolved → Prop}

theorem Lookup.readSync {offer : Option ProducerId}
    (look : Lookup terms runner runner' key .sync offer calls O Q) {e : Entry}
    (suits : e.Suits terms key e.slot) (driven : runtime = .currentThread → terms.driven) :
    Program.Abides terms (Program.readSync setting runner runtime e)
      (⟨key, .sync, offer, .reading e⟩ :: calls)
      (Program.readSync setting runner' runtime e) (Finishes key .sync offer calls Q) := by
  obtain rfl := suits.key
  exact Program.abides_readSync suits.sound (look.gives e suits) (fun _ => rfl) driven
    (look.runs e suits)

theorem Lookup.readAsync {mode : Mode} {offer : Option ProducerId}
    (look : Lookup terms runner runner' key mode offer calls O Q) {e : Entry}
    (suits : e.Suits terms key e.slot) (driven : runtime = .currentThread → terms.driven) :
    Program.Abides terms (Program.readAsync setting runner runtime e)
      (⟨key, mode, offer, .reading e⟩ :: calls)
      (Program.readAsync setting runner' runtime e) (Finishes key mode offer calls Q) := by
  obtain rfl := suits.key
  exact Program.abides_readAsync suits.sound (look.gives e suits) driven (look.runs e suits)

namespace Program

def readRegistered (key : Key) (read : Entry → Program Resolved) :
    Except ResolveError Entry → Program Resolved
  | .ok entry => return checked key (← read entry)
  | .error e => return .error e

/-- What the registering entry points have in common, once the trail has let them in. -/
def registering (key : Key) (register : SlotId → Program (Except ResolveError Entry))
    (read : Entry → Program Resolved) : Program Resolved := do
  let slot ← perform (.claimSlot key)
  let entry ← match ← perform (.readEntry slot) with
    | some entry => pure (.ok entry)
    | none => register slot
  readRegistered key read entry

def finding (key : Key) (read : Entry → Program Resolved) : Program Resolved := do
  match ← perform (.findEntry key) with
  | some entry => return checked key (← read entry)
  | none => return .error (.notRegistered key.name)

theorem abides_registering {mode : Mode} {offer : Option ProducerId}
    {register register' : SlotId → Program (Except ResolveError Entry)}
    {read read' : Entry → Program Resolved}
    (hreg : ∀ slot, (register slot).Abides terms (⟨key, mode, offer, .missed slot⟩ :: calls)
      (register' slot) (Finds terms key mode offer calls Q))
    (hread : ∀ e : Entry, e.Suits terms key e.slot →
      (read e).Abides terms (⟨key, mode, offer, .reading e⟩ :: calls) (read' e)
        (Finishes key mode offer calls Q)) :
    (registering key register read).Abides terms (⟨key, mode, offer, .entered⟩ :: calls)
      (registering key register' read') (Finishes key mode offer calls Q) := by
  have read_found : ∀ calls' r, Finds terms key mode offer calls Q calls' r →
      (readRegistered key read r).Abides terms calls' (readRegistered key read' r)
        (Finishes key mode offer calls Q) := by
    intro calls' r h
    cases r with
    | ok e =>
        obtain ⟨suits, rfl⟩ := h
        exact abides_checked (hread e suits)
    | error e =>
        obtain ⟨⟨s, rfl, he⟩, hq⟩ := h
        exact abides_pure ⟨s, rfl, he, by simp, hq⟩
  refine abides_perform_bind (open_own (r := (0 : Nat)) .claim) fun slot calls' hm => ?_
  obtain ⟨s, hn, rfl⟩ := hm.own_of_idle rfl (by simp)
  cases hn
  apply abides_perform_bind (open_own .miss)
  intro r calls' hm
  obtain ⟨s, hn, rfl⟩ := hm.own_of_idle rfl (by simp)
  cases hn with
  | @hit _ e h => exact read_found _ (.ok e) ⟨h.slot ▸ h, rfl⟩
  | miss => exact abides_bind ((hreg slot).mono read_found)

theorem abides_finding {mode : Mode} {offer : Option ProducerId}
    {read read' : Entry → Program Resolved} (absent : Q (.error (.notRegistered key.name)))
    (hread : ∀ e : Entry, e.Suits terms key e.slot →
      (read e).Abides terms (⟨key, mode, offer, .reading e⟩ :: calls) (read' e)
        (Finishes key mode offer calls Q)) :
    (finding key read).Abides terms (⟨key, mode, offer, .entered⟩ :: calls) (finding key read')
      (Finishes key mode offer calls Q) := by
  apply abides_perform_bind (open_own .absent)
  intro r calls' hm
  obtain ⟨s, hn, rfl⟩ := hm.own_of_idle rfl (by simp)
  cases hn with
  | find h => exact abides_checked (hread _ h)
  | absent => exact abides_pure ⟨_, rfl, .failed, by simp, absent⟩

/-- Each entry point leaves the calls that are under way as they are. -/
theorem abides_entryPoint (hobs : terms.observers = setting.observers) {m : Mode}
    (x : EntryPoint m) (hc : Callable calls) (driven : runtime = .currentThread → terms.driven)
    (asked : terms.asks (calls.map Call.key) key)
    (given_back : ∀ r, Q r → terms.gives key r)
    (refused : ∀ e, (trailOf calls).refusal? key.name = some e → terms.refuses e → Q (.error e))
    (mismatched : x.Mismatched → ∀ policy, Q (.error (.policyMismatch key.name policy m)))
    (absent : x.offer = none → Q (.error (.notRegistered key.name)))
    (look : (trailOf calls).refusal? key.name = none →
      Lookup terms runner runner' key m x.offer calls O Q)
    (given : (trailOf calls).refusal? key.name = none → ∀ policy producer,
      x = .register policy producer →
        Offer terms runner runner' key m calls policy producer O Q) :
    (x.program setting runner runtime key).Abides terms calls
      (x.program setting runner' runtime key) fun calls' r => calls' = calls ∧ Q r := by
  cases x with
  | read =>
      cases m with
      | sync =>
          exact abides_guarded hc asked given_back refused fun h =>
            abides_finding (absent rfl) fun e suits => (look h).readSync suits driven
      | async =>
          exact abides_guarded hc asked given_back refused fun h =>
            abides_finding (absent rfl) fun e suits => (look h).readAsync suits driven
  | register policy producer =>
      cases m with
      | sync =>
          simp only [EntryPoint.program, getOrRegister]
          cases hp : policy.isAsync with
          | true =>
              refine abides_pure ⟨rfl, mismatched ?_ policy⟩
              simp only [Policy.isAsync, beq_iff_eq] at hp
              simp [EntryPoint.Mismatched, hp]
          | false =>
              exact abides_guarded hc asked given_back refused fun h =>
                abides_registering
                  (fun slot => abides_registerSync hobs hp driven (given h policy producer rfl))
                  fun e suits => (look h).readSync suits driven
      | async =>
          simp only [EntryPoint.program, getOrRegisterAsync]
          cases hp : policy.isAsync with
          | true =>
              exact abides_guarded hc asked given_back refused fun h =>
                abides_registering
                  (fun slot => abides_registerAsync hobs hp driven (given h policy producer rfl))
                  fun e suits => (look h).readAsync suits driven
          | false =>
              refine abides_pure ⟨rfl, mismatched ?_ policy⟩
              cases policy <;> simp_all [Policy.isAsync, Policy.mode, EntryPoint.Mismatched]

end Program

def Terms.plain (observers : Nat) (alone : Option ClientId) : Terms :=
  ⟨observers, alone, True, fun _ => True, fun _ => True, fun _ _ => True, fun _ _ => True,
    fun _ => True⟩

def Runner.Abides (terms : Terms) (runner runner' : Runner) (depth : Nat) : Prop :=
  ∀ runtime {m : Mode} (script : Script m) calls, Nested calls → Callable calls →
    depth ≤ calls.length →
      (runner runtime script).Abides terms calls (runner' runtime script) fun calls' _ =>
        calls' = calls

section Plain

variable {alone : Option ClientId}

theorem Runner.Abides.producer
    (h : Runner.Abides (.plain setting.observers alone) runner runner' (calls.length + 1))
    (hn : Nested calls) (hc : Callable calls) (hr : (trailOf calls).refusal? key.name = none)
    {m : Mode} (p : Producer m) {mode : Mode} {offer : Option ProducerId} :
    p.Abides (.plain setting.observers alone) runner runner' key mode offer calls fun _ => True :=
  fun runtime _ run s hs =>
    (h runtime (p.script run) (⟨key, mode, offer, s⟩ :: calls) ⟨hc, hr, hn⟩ hs
      (by simp)).mono fun _ _ he => ⟨he, trivial⟩

theorem abides_entryPoint_plain
    (h : Runner.Abides (.plain setting.observers alone) runner runner' (calls.length + 1))
    (hn : Nested calls) (hc : Callable calls) {m : Mode} (x : EntryPoint m) :
    (x.program setting runner runtime key).Abides (.plain setting.observers alone) calls
      (x.program setting runner' runtime key) fun calls' _ => calls' = calls := by
  refine (Program.abides_entryPoint (O := fun _ => True) (Q := fun _ => True) rfl x hc
    (fun _ => trivial) trivial (fun _ _ => trivial) (fun _ _ _ => trivial) (fun _ _ => trivial)
    (fun _ => trivial) (fun hr => ?_) (fun hr policy producer _ => ?_)).mono fun _ _ he => he.1
  · exact ⟨fun e _ p _ => h.producer hn hc hr p.2,
      fun e _ => ⟨fun _ _ => trivial, fun _ _ _ _ => trivial, fun _ _ _ _ _ _ _ => trivial,
        fun _ _ _ _ _ _ _ => trivial, fun _ _ => trivial⟩⟩
  · exact ⟨h.producer hn hc hr producer, fun _ _ => trivial, fun _ _ => trivial,
      fun _ _ => trivial⟩

theorem abides_aside (a : Action) (ha : a.IsAside) (hc : Callable calls) :
    (Program.perform a).Abides terms calls (Program.perform a) fun calls' _ => calls' = calls :=
  Program.abides_perform (open_aside hc ha) fun _ _ hm => move_aside hc ha hm

/-- What returns the result of a part that leaves the calls as they are does so too. -/
theorem Program.Abides.return {α β : Type} {p q : Program α}
    (h : p.Abides terms calls q fun calls' _ => calls' = calls) (f : α → β) :
    Program.Abides terms (return f (← p)) calls (return f (← q)) fun calls' _ => calls' = calls :=
  Program.abides_bind (h.mono fun _ _ he => Program.abides_pure he)

theorem abides_stateOf (hc : Callable calls) :
    (Program.stateOf key).Abides terms calls (Program.stateOf key) fun calls' _ =>
      calls' = calls := by
  unfold Program.stateOf
  apply Program.abides_bind
  apply (abides_aside (.findEntry _) trivial hc).mono
  intro _ found he
  subst he
  cases found with
  | none => exact Program.abides_pure rfl
  | some e =>
      cases hr : e.resolution with
      | lazySingletonAsync p =>
          simp only [hr]
          apply Program.abides_bind
          apply (abides_aside (.readCell _) trivial hc).mono
          intro _ inst he
          subst he
          cases inst <;> exact Program.abides_pure rfl
      | _ => simp only [hr]; exact Program.abides_pure rfl

theorem abides_reset (hc : Callable calls) :
    (Program.reset setting).Abides terms calls (Program.reset setting) fun calls' _ =>
      calls' = calls := by
  unfold Program.reset
  apply Program.abides_bind
  apply (abides_aside .clearEntries trivial hc).mono
  intro _ dropped he
  subst he
  exact Program.abides_announce rfl rfl

theorem abides_request
    (h : Runner.Abides (.plain setting.observers alone) runner runner' (calls.length + 1))
    (hn : Nested calls) (hc : Callable calls) {m : Mode} (request : Request m) :
    (request.program setting runner runtime).Abides (.plain setting.observers alone) calls
      (request.program setting runner' runtime) fun calls' _ => calls' = calls := by
  have entry {m : Mode} (key : Key) (x : EntryPoint m) :
      Program.Abides (.plain setting.observers alone)
        (return Reply.resolved (← x.program setting runner runtime key)) calls
        (return Reply.resolved (← x.program setting runner' runtime key)) fun calls' _ =>
          calls' = calls :=
    (abides_entryPoint_plain h hn hc x).return Reply.resolved
  cases request with
  | get key => exact entry key (m := .sync) .read
  | getAsync key => exact entry key (m := .async) .read
  | resolve key => exact entry key (m := .sync) (.register _ ⟨.accessor key, _⟩)
  | resolveAsync key => exact entry key (m := .async) (.register _ ⟨.accessor key, _⟩)
  | register key policy script =>
      apply Program.abides_bind
      apply (abides_aside .newProducer trivial hc).mono
      intro _ id he
      subst he
      exact entry key (m := .sync) (.register policy ⟨id, script⟩)
  | registerAsync key policy script =>
      apply Program.abides_bind
      apply (abides_aside .newProducer trivial hc).mono
      intro _ id he
      subst he
      exact entry key (m := .async) (.register policy ⟨id, script⟩)
  | state key => exact (abides_stateOf hc).return Reply.state
  | policyOf key => exact (abides_aside (.findEntry _) trivial hc).return _
  | contains key => exact (abides_aside (.findEntry _) trivial hc).return _
  | len | isEmpty | describe => exact (abides_aside .countEntries trivial hc).return _
  | reset =>
      exact Program.abides_bind ((abides_reset hc).mono fun _ _ he => Program.abides_pure he)
  | pause =>
      exact Program.abides_bind
        ((abides_aside .pause trivial hc).mono fun _ _ he => Program.abides_pure he)
  | yield =>
      exact Program.abides_bind
        ((abides_aside .yield trivial hc).mono fun _ _ he => Program.abides_pure he)

/-- Scripts leave the calls as they are if the requests in them do. -/
theorem abides_script (hc : Callable calls) {call call' : Request .sync → Program Reply}
    {await await' : Request .async → Program Reply}
    (hcall : ∀ r, (call r).Abides terms calls (call' r) fun calls' _ => calls' = calls)
    (hawait : ∀ r, (await r).Abides terms calls (await' r) fun calls' _ => calls' = calls)
    {m : Mode} : (script : Script m) →
    (script.program call await).Abides terms calls (script.program call' await') fun calls' _ =>
      calls' = calls
  | .finish _ => Program.abides_pure rfl
  | .note _ next => by
      apply Program.abides_bind
      apply (abides_aside (.note _) trivial hc).mono
      intro calls' _ he
      subst calls'
      exact abides_script hc hcall hawait next
  | .call request next => by
      apply Program.abides_bind
      apply (hcall request).mono
      intro calls' reply he
      subst calls'
      exact abides_script hc hcall hawait (next reply)
  | .await request next => by
      apply Program.abides_bind
      apply (hawait request).mono
      intro calls' reply he
      subst calls'
      exact abides_script hc hcall hawait (next reply)

/-- Scripts nested at most `level` deep, with `bottom` to carry out those that are nested deeper. -/
def runScriptOver (setting : Setting) (bottom : Runner) : Nat → Runner
  | 0 => bottom
  | level + 1 => fun runtime _ script =>
      script.program (Request.program setting (runScriptOver setting bottom level) runtime)
        (Request.program setting (runScriptOver setting bottom level) runtime)

/-- The bottom is out of reach: calls that nest so deep would have been refused. -/
theorem abides_runScript (bottom : Runner) (level : Nat) :
    Runner.Abides (.plain setting.observers alone) (runScript setting level)
      (runScriptOver setting bottom level) (maxDepth + 1 - level) := by
  induction level with
  | zero =>
      intro runtime m script calls hn hc hl
      have := hn.length_le
      omega
  | succ level ih =>
      intro runtime m script calls hn hc hl
      have deeper : Runner.Abides (.plain setting.observers alone) (runScript setting level)
          (runScriptOver setting bottom level) (calls.length + 1) :=
        fun runtime m script calls' hn' hc' hl' =>
          ih runtime script calls' hn' hc' (by omega)
      exact abides_script hc (fun r => abides_request deeper hn hc r)
        (fun r => abides_request deeper hn hc r) script

def Demand.programOver (setting : Setting) (runner : Runner) (d : Demand) : Program Reply :=
  match d.request with
  | .inl request => request.program setting runner d.context.runtime
  | .inr request => request.program setting runner d.context.runtime

def workOver (setting : Setting) (runner : Runner) (demands : List Demand) :
    Program (List Reply) :=
  demands.mapM fun d => d.programOver setting runner

/-- What a client does abides by the conduct of clients, and ends with a reply to each demand. -/
theorem abides_work (bottom : Runner) (demands : List Demand) :
    (work setting demands).Abides (.plain setting.observers alone) []
      (workOver setting (runScriptOver setting bottom maxDepth) demands) fun calls replies =>
        calls = [] ∧ replies.length = demands.length := by
  have runs : Runner.Abides (.plain setting.observers alone) (runScript setting maxDepth)
      (runScriptOver setting bottom maxDepth) (([] : List Call).length + 1) :=
    abides_runScript bottom maxDepth
  unfold work workOver
  induction demands with
  | nil => exact Program.abides_pure ⟨rfl, rfl⟩
  | cons d demands ih =>
      simp only [List.mapM_cons]
      have first : (d.program setting).Abides (.plain setting.observers alone) []
          (d.programOver setting (runScriptOver setting bottom maxDepth)) fun calls _ =>
            calls = [] := by
        obtain ⟨request | request, context⟩ := d
        · exact abides_request runs trivial trivial request
        · exact abides_request runs trivial trivial request
      apply Program.abides_bind
      apply first.mono
      intro _ reply he
      subst he
      apply Program.abides_bind
      apply ih.mono
      intro _ replies given
      obtain ⟨rfl, hl⟩ := given
      exact Program.abides_pure ⟨rfl, by simp [hl]⟩

end Plain

end Wiring.Registry
