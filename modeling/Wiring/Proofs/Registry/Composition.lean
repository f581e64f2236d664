import Wiring.Proofs.Registry.Requesting

/-!
The programs of clients by their parts. What a client does is put together from quiet steps, of
which no observer is told, and from registrations, runs of producers and resets, of which all are. A
relation between the programs of two settings that is kept where programs are put together is one
between all that clients do, if it is one between these parts. A producer is at hand for a
registration before anything else is done with it.
-/
namespace Wiring.Registry

namespace Action

/-- Steps that tell observers nothing and call for nothing to be told. -/
def IsQuiet : Action → Prop
  | observe .. | publish .. | beginRun .. | endRun .. | clearEntries => False
  | _ => True

def found : (a : Action) → a.Response → List Entry
  | findEntry _, e | readEntry _, e => e.toList
  | _, _ => []

end Action

/-- Some key has been given the slot. -/
def History.Claims (h : History) (slot : SlotId) : Prop :=
  ∃ c key, (⟨c, .claimSlot key, slot⟩ : Performed) ∈ h

theorem History.Claims.mono {h h' : History} {slot : SlotId} (claimed : h.Claims slot)
    (later : h <:+ h') : h'.Claims slot := by
  obtain ⟨c, key, there⟩ := claimed
  exact ⟨c, key, later.subset there⟩

structure Candidate where
  producer : ProducerId
  policy : Policy

def EntryPoint.candidate? {m : Mode} : EntryPoint m → Option Candidate
  | .read => none
  | .register policy producer => some ⟨producer.id, policy⟩

/-- What is done with the gate of a slot held, unless the slot has an entry. -/
def Program.unlessRegistered (slot : SlotId) (register : Program (Except ResolveError Entry)) :
    Program (Except ResolveError Entry) := do
  match ← perform (.readEntry slot) with
  | some existing => return .ok existing
  | none => register

def Setting.SameAccessors (s s' : Setting) : Prop := s.accessor = s'.accessor

theorem Setting.SameAccessors.refl (s : Setting) : s.SameAccessors s := rfl

def nowhere {α : Type} (_ : α) : List Entry := []

def registeredIn (r : Except ResolveError Entry) : List Entry := r.toOption.toList

theorem forall_mem_nowhere {α : Type} {P : Entry → Prop} (a : α) : ∀ e ∈ nowhere a, P e :=
  fun _ he => absurd he List.not_mem_nil

theorem forall_mem_refused {P : Entry → Prop} (e : ResolveError) :
    ∀ x ∈ registeredIn (.error e), P x :=
  fun _ hx => absurd hx List.not_mem_nil

/-- A relation between programs of two settings, from some moment on and with a candidate at hand if
there is one, and with the entries that the values of the programs are about. Of these something is
known, once it is and for good. -/
structure Composition (s s' : Setting) where
  accessors : s.SameAccessors s'
  Known : History → Entry → Prop
  Rel {α : Type} : History → Option Candidate → Program α → Program α → (α → List Entry) → Prop
  later {h h' : History} {e : Entry} : h <:+ h' → Known h e → Known h' e
  done {α : Type} {h : History} {x : Option Candidate} {a : α} {about : α → List Entry} :
    (∀ e ∈ about a, Known h e) → Rel h x (pure a) (pure a) about
  bind {α β : Type} {h : History} {x : Option Candidate} {p q : Program α} {f g : α → Program β}
    {about : α → List Entry} {about' : β → List Entry} :
    Rel h x p q about →
      (∀ a h', h <:+ h' → (∀ e ∈ about a, Known h' e) → Rel h' none (f a) (g a) about') →
        Rel h x (p >>= f) (q >>= g) about'
  /-- A candidate stays one through quiet steps. -/
  quiet {β : Type} {h : History} {x : Option Candidate} {a : Action} {f g : a.Response → Program β}
    {about : β → List Entry} : a.IsQuiet →
    (∀ r h', h <:+ h' → (∃ c, (⟨c, a, r⟩ : Performed) ∈ h') → (∀ e ∈ a.found r, Known h' e) →
      Rel h' x (f r) (g r) about) →
        Rel h x (Program.perform a >>= f) (Program.perform a >>= g) about
  /-- A candidate need not be registered. -/
  forget {α : Type} {h : History} {x : Option Candidate} {p q : Program α}
    {about : α → List Entry} : Rel h none p q about → Rel h x p q about
  /-- A producer that has just been handed in is a candidate for any policy. -/
  handed {β : Type} {h : History} {policy : Policy} {f g : ProducerId → Program β}
    {about : β → List Entry} :
    (∀ id h', h <:+ h' → Rel h' (some ⟨id, policy⟩) (f id) (g id) about) →
      Rel h none (Program.perform .newProducer >>= f) (Program.perform .newProducer >>= g) about
  /-- An accessor is a candidate for its own policy at any time. -/
  accessor {α : Type} {h : History} {key : Key} {p q : Program α} {about : α → List Entry} :
    Rel h (some ⟨.accessor key, (s.accessor key).policy⟩) p q about → Rel h none p q about
  deferred {h : History} {slot : SlotId} {key : Key} {x : Candidate} {resolution : Resolution} :
    h.Claims slot → x.policy.isEager = false → resolution.policy = x.policy →
    resolution.producer? = some x.producer →
      Rel h (some x)
        (Program.unlessRegistered slot
          (return .ok (← Program.publishEntry s ⟨key, x.policy, slot, resolution⟩)))
        (Program.unlessRegistered slot
          (return .ok (← Program.publishEntry s' ⟨key, x.policy, slot, resolution⟩))) registeredIn
  run {h : History} {runner runner' : Runner} {runtime : Runtime} {e : Entry} {m : Mode}
    {producer : Producer m} :
    (∀ h runtime {m : Mode} (script : Script m),
      Rel h none (runner runtime script) (runner' runtime script) nowhere) →
    Known h e → e.resolution.maker? = some ⟨m, producer⟩ →
      Rel h none (Program.runProducer s runner runtime e.slot e.key producer)
        (Program.runProducer s' runner' runtime e.slot e.key producer) nowhere
  eager {h : History} {runner runner' : Runner} {runtime : Runtime} {slot : SlotId} {key : Key}
    {policy : Policy} {m : Mode} {producer : Producer m} {resolution : Instance → Resolution} :
    (∀ h runtime {m : Mode} (script : Script m),
      Rel h none (runner runtime script) (runner' runtime script) nowhere) →
    h.Claims slot → policy.isEager →
    (∀ inst, (resolution inst).policy = policy ∧ (resolution inst).instance? = some inst) →
      Rel h (some ⟨producer.id, policy⟩)
        (Program.unlessRegistered slot
          (Program.eagerly s runner runtime slot key policy producer resolution))
        (Program.unlessRegistered slot
          (Program.eagerly s' runner' runtime slot key policy producer resolution)) registeredIn
  reset {h : History} : Rel h none (Program.reset s) (Program.reset s') nowhere

namespace Composition

open Program

variable {s s' : Setting} (c : Composition s s') {h : History} {x : Option Candidate}

def Runners (runner runner' : Runner) : Prop :=
  ∀ h runtime {m : Mode} (script : Script m),
    c.Rel h none (runner runtime script) (runner' runtime script) nowhere

section Parts

variable {α β : Type} {p q : Program α} {about : α → List Entry}

theorem plain (a : α) : c.Rel h x (pure a) (pure a) nowhere :=
  c.done (forall_mem_nowhere a)

theorem refused (e : ResolveError) :
    c.Rel h x (pure (.error e)) (pure (.error e)) registeredIn :=
  c.done (forall_mem_refused e)

/-- The value of a program, put in other words. -/
theorem map (first : c.Rel h x p q about) (f : α → β) {about' : β → List Entry}
    (fewer : ∀ a, about' (f a) ⊆ about a) :
    c.Rel h x (return f (← p)) (return f (← q)) about' :=
  c.bind first fun a _ _ known => c.done fun e he => known e (fewer a he)

theorem mapPlain (first : c.Rel h x p q about) (f : α → β) :
    c.Rel h x (return f (← p)) (return f (← q)) nowhere :=
  c.map first f fun _ => List.nil_subset _

theorem after {a : Action} {f g : a.Response → Program β} {about' : β → List Entry}
    (quiet : a.IsQuiet)
    (rest : ∀ r h', h <:+ h' → (∀ e ∈ a.found r, c.Known h' e) → c.Rel h' x (f r) (g r) about') :
    c.Rel h x (perform a >>= f) (perform a >>= g) about' :=
  c.quiet quiet fun r h' later _ known => rest r h' later known

end Parts

section Calls

variable {runner runner' : Runner} {runtime : Runtime} {key : Key} {slot : SlotId} {e : Entry}

theorem guarded {mode : Mode} {offer : Option ProducerId} {body body' : Program Resolved}
    (hb : ∀ h, c.Rel h x body body' nowhere) :
    c.Rel h x (guarded mode key offer body) (Program.guarded mode key offer body') nowhere := by
  refine c.after trivial fun entered h' _ _ => ?_
  cases entered with
  | error e => exact c.plain _
  | ok before =>
      exact c.bind (hb h') fun result _ _ _ => c.after trivial fun _ _ _ _ => c.plain _

theorem waitFor {body body' : Runtime → Program Resolved}
    (hb : ∀ inside, c.Rel h none (body inside) (body' inside) nowhere) :
    c.Rel h none (waitFor runtime key body) (Program.waitFor runtime key body') nowhere := by
  cases runtime with
  | currentThread => exact c.plain _
  | none | multiThread => exact hb .multiThread

theorem initOnce {body body' : Program Resolved}
    (hb : ∀ h', h <:+ h' → c.Rel h' none body body' nowhere) :
    c.Rel h none (initOnce slot body) (Program.initOnce slot body') nowhere := by
  refine c.after trivial fun cached h' later _ => ?_
  cases cached with
  | some inst => exact c.plain _
  | none =>
      refine c.bind (hb h' later) fun result _ _ _ => ?_
      cases result with
      | ok inst => exact c.after trivial fun _ _ _ _ => c.plain _
      | error e => exact c.after trivial fun _ _ _ _ => c.plain _

theorem takeGateSync {β : Type} {f g : Bool → Program β} {about : β → List Entry}
    (rest : ∀ taken h', h <:+ h' → c.Rel h' x (f taken) (g taken) about) :
    c.Rel h x (takeGateSync runtime slot >>= f)
      (Program.takeGateSync runtime slot >>= g) about := by
  simp only [Program.takeGateSync, LawfulMonad.bind_assoc]
  refine c.after trivial fun free h' later _ => ?_
  cases free with
  | true => exact rest true h' later
  | false =>
      cases runtime with
      | currentThread => exact rest false h' later
      | none | multiThread =>
          exact c.after trivial fun _ h'' later' _ => rest true h'' (later.trans later')

theorem unlessRegistered {register register' : Program (Except ResolveError Entry)}
    (hreg : ∀ h', h <:+ h' → c.Rel h' x register register' registeredIn) :
    c.Rel h x (unlessRegistered slot register) (Program.unlessRegistered slot register')
      registeredIn := by
  refine c.after trivial fun found h' later known => ?_
  cases found with
  | some existing => exact c.done known
  | none => exact hreg h' later

theorem stateOf : c.Rel h none (stateOf key) (Program.stateOf key) nowhere := by
  refine c.after trivial fun found _ _ _ => ?_
  cases found with
  | none => exact c.plain _
  | some e =>
      obtain ⟨key, policy, slot, resolution⟩ := e
      cases resolution with
      | lazySingletonAsync p =>
          refine c.after trivial fun cached _ _ _ => ?_
          cases cached <;> exact c.plain _
      | _ => exact c.plain _

variable {c} (related : c.Runners runner runner')

include related

theorem Runners.readSync (known : c.Known h e) :
    c.Rel h none (readSync s runner runtime e) (Program.readSync s' runner' runtime e)
      nowhere := by
  obtain ⟨key, policy, slot, resolution⟩ := e
  cases resolution with
  | factory p => exact c.run related known rfl
  | singleton inst | singletonAsync inst => exact c.plain _
  | lazySingleton p => exact c.initOnce fun _ later => c.run related (c.later later known) rfl
  | factoryAsync p => exact c.waitFor fun _ => c.run related known rfl
  | lazySingletonAsync p =>
      refine c.after trivial fun cached h' later _ => ?_
      cases cached with
      | some inst => exact c.plain _
      | none =>
          have known' := c.later later known
          exact c.waitFor fun _ =>
            c.initOnce fun _ later => c.run related (c.later later known') rfl

theorem Runners.readAsync (known : c.Known h e) :
    c.Rel h none (readAsync s runner runtime e) (Program.readAsync s' runner' runtime e)
      nowhere := by
  obtain ⟨key, policy, slot, resolution⟩ := e
  cases resolution with
  | factoryAsync p => exact c.run related known rfl
  | singletonAsync inst => exact c.plain _
  | lazySingletonAsync p =>
      exact c.initOnce fun _ later => c.run related (c.later later known) rfl
  | factory p => exact related.readSync (e := ⟨key, policy, slot, .factory p⟩) known
  | singleton inst => exact c.plain _
  | lazySingleton p => exact related.readSync (e := ⟨key, policy, slot, .lazySingleton p⟩) known

theorem Runners.registerSync (policy : Policy) (producer : Producer .sync)
    (claimed : h.Claims slot) :
    c.Rel h (some ⟨producer.id, policy⟩)
      (registerSync s runner runtime slot key policy producer)
      (Program.registerSync s' runner' runtime slot key policy producer) registeredIn := by
  have gated (h : History) (claimed : h.Claims slot) :
      c.Rel h (some ⟨producer.id, policy⟩)
        (registerSyncGated s runner runtime slot key policy producer)
        (registerSyncGated s' runner' runtime slot key policy producer) registeredIn := by
    cases policy with
    | factory | lazySingleton => exact c.deferred claimed rfl rfl rfl
    | singleton => exact c.eager related claimed rfl fun inst => ⟨rfl, rfl⟩
    | factoryAsync | singletonAsync | lazySingletonAsync =>
        exact c.unlessRegistered fun _ _ => c.refused _
  refine c.takeGateSync fun taken h' later => ?_
  cases taken with
  | true =>
      exact c.bind (gated h' (claimed.mono later)) fun r _ _ known => c.after trivial
        fun _ _ later _ => c.done fun e he => c.later later (known e he)
  | false => exact c.refused _

theorem Runners.registerAsync (policy : Policy) (producer : Producer .async)
    (claimed : h.Claims slot) :
    c.Rel h (some ⟨producer.id, policy⟩)
      (registerAsync s runner runtime slot key policy producer)
      (Program.registerAsync s' runner' runtime slot key policy producer) registeredIn := by
  have gated (h : History) (claimed : h.Claims slot) :
      c.Rel h (some ⟨producer.id, policy⟩)
        (registerAsyncGated s runner runtime slot key policy producer)
        (registerAsyncGated s' runner' runtime slot key policy producer) registeredIn := by
    cases policy with
    | factoryAsync | lazySingletonAsync => exact c.deferred claimed rfl rfl rfl
    | singletonAsync => exact c.eager related claimed rfl fun inst => ⟨rfl, rfl⟩
    | factory | singleton | lazySingleton => exact c.unlessRegistered fun _ _ => c.refused _
  exact c.after trivial fun _ h' later _ => c.bind (gated h' (claimed.mono later))
    fun r _ _ known => c.after trivial fun _ _ later _ =>
      c.done fun e he => c.later later (known e he)

omit related in
theorem registering {register register' : SlotId → Program (Except ResolveError Entry)}
    {read read' : Entry → Program Resolved}
    (hreg : ∀ h slot, h.Claims slot → c.Rel h x (register slot) (register' slot) registeredIn)
    (hread : ∀ h e, c.Known h e → c.Rel h none (read e) (read' e) nowhere) :
    c.Rel h x (Program.registering key register read) (Program.registering key register' read')
      nowhere := by
  have read_found (h : History) (r : Except ResolveError Entry) :
      (∀ e ∈ registeredIn r, c.Known h e) →
        c.Rel h none (readRegistered key read r) (readRegistered key read' r) nowhere := by
    intro known
    cases r with
    | ok e => exact c.mapPlain (hread h e (known e List.mem_cons_self)) (checked key)
    | error e => exact c.plain _
  refine c.quiet trivial fun slot h₁ _ there _ => c.after trivial fun found h₂ later known => ?_
  obtain ⟨me, there⟩ := there
  cases found with
  | some e => exact c.forget (read_found h₂ (.ok e) known)
  | none =>
      exact c.bind (hreg h₂ slot ⟨me, key, later.subset there⟩) fun r h₃ _ known =>
        read_found h₃ r known

omit related in
theorem finding {read read' : Entry → Program Resolved}
    (hread : ∀ h e, c.Known h e → c.Rel h none (read e) (read' e) nowhere) :
    c.Rel h none (Program.finding key read) (Program.finding key read') nowhere := by
  refine c.after trivial fun found h' _ known => ?_
  cases found with
  | some e => exact c.mapPlain (hread h' e (known e List.mem_cons_self)) (checked key)
  | none => exact c.plain _

theorem Runners.entryPoint {m : Mode} (x : EntryPoint m) :
    c.Rel h x.candidate? (x.program s runner runtime key) (x.program s' runner' runtime key)
      nowhere := by
  cases x with
  | read =>
      cases m with
      | sync => exact c.guarded fun _ => finding fun _ _ known => related.readSync known
      | async => exact c.guarded fun _ => finding fun _ _ known => related.readAsync known
  | register policy producer =>
      cases m with
      | sync =>
          simp only [EntryPoint.program, getOrRegister]
          split
          · exact c.plain _
          · exact c.guarded fun _ => registering
              (fun _ _ claimed => related.registerSync policy producer claimed)
              fun _ _ known => related.readSync known
      | async =>
          simp only [EntryPoint.program, getOrRegisterAsync]
          split
          · exact c.guarded fun _ => registering
              (fun _ _ claimed => related.registerAsync policy producer claimed)
              fun _ _ known => related.readAsync known
          · exact c.plain _

theorem Runners.request {m : Mode} (request : Request m) :
    c.Rel h none (request.program s runner runtime) (request.program s' runner' runtime)
      nowhere := by
  have entry {h : History} {m : Mode} (key : Key) (x : EntryPoint m) :
      c.Rel h x.candidate? (return Reply.resolved (← x.program s runner runtime key))
        (return Reply.resolved (← x.program s' runner' runtime key)) nowhere :=
    c.mapPlain (related.entryPoint x) Reply.resolved
  have same : s.accessor = s'.accessor := c.accessors
  cases request with
  | get key => exact entry key (m := .sync) .read
  | getAsync key => exact entry key (m := .async) .read
  | resolve key =>
      simp only [Request.program, ← same]
      exact c.accessor (entry key (m := .sync) (.register _ ⟨.accessor key, _⟩))
  | resolveAsync key =>
      simp only [Request.program, ← same]
      exact c.accessor (entry key (m := .async) (.register _ ⟨.accessor key, _⟩))
  | register key policy script =>
      exact c.handed fun id _ _ => entry key (m := .sync) (.register policy ⟨id, script⟩)
  | registerAsync key policy script =>
      exact c.handed fun id _ _ => entry key (m := .async) (.register policy ⟨id, script⟩)
  | state key => exact c.mapPlain c.stateOf Reply.state
  | reset => exact c.bind c.reset fun _ _ _ _ => c.plain _
  | policyOf | contains | len | isEmpty | describe | pause | yield =>
      exact c.after trivial fun _ _ _ _ => c.plain _

end Calls

theorem script {call call' : Request .sync → Program Reply}
    {await await' : Request .async → Program Reply}
    (hcall : ∀ h r, c.Rel h none (call r) (call' r) nowhere)
    (hawait : ∀ h r, c.Rel h none (await r) (await' r) nowhere) {m : Mode} {h : History} :
    (x : Script m) → c.Rel h none (x.program call await) (x.program call' await') nowhere
  | .finish _ => c.plain _
  | .note _ next => c.after trivial fun _ _ _ _ => script hcall hawait next
  | .call request next =>
      c.bind (hcall h request) fun reply _ _ _ => script hcall hawait (next reply)
  | .await request next =>
      c.bind (hawait h request) fun reply _ _ _ => script hcall hawait (next reply)

theorem runScript (level : Nat) : c.Runners (runScript s level) (Registry.runScript s' level) := by
  induction level with
  | zero => exact fun _ _ _ _ => c.plain _
  | succ level ih =>
      intro h runtime m script
      exact c.script (fun _ => ih.request) (fun _ => ih.request) script

/-- What a client does in the one setting and in the other. -/
theorem work (demands : List Demand) :
    c.Rel h none (work s demands) (Registry.work s' demands) nowhere := by
  induction demands generalizing h with
  | nil => exact c.plain _
  | cons d demands ih =>
      simp only [Registry.work, List.mapM_cons] at ih ⊢
      have first : c.Rel h none (d.program s) (d.program s') nowhere := by
        obtain ⟨request | request, context⟩ := d
        · exact (c.runScript maxDepth).request request
        · exact (c.runScript maxDepth).request request
      exact c.bind first fun reply _ _ _ => c.mapPlain ih (reply :: ·)

end Composition

end Wiring.Registry
