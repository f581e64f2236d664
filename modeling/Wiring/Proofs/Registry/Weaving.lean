import Wiring.Proofs.Registry.Requesting

/-!
How programs are put together. Whatever clients do is woven from single steps inside calls and from
calls, each between its entry and its end. So what holds of these, and is kept where one program
follows another, holds of all that clients do, whichever trails they do it under. Scripts publish
and run nothing themselves, but through the calls that they make.
-/
namespace Wiring.Registry

def Action.IsInner : Action → Prop
  | enter .. | leave .. => False
  | _ => True

inductive Program.Woven : {α : Type} → Program α → Prop
  | value {α : Type} (a : α) : Woven (pure a)
  | one {a : Action} (inner : a.IsInner) : Woven (perform a)
  | bind {α β : Type} {p : Program α} {f : α → Program β} (first : Woven p)
      (rest : ∀ a, Woven (f a)) : Woven (p >>= f)
  | call {mode : Mode} {key : Key} {offer : Option ProducerId} {body : Program Resolved}
      (inside : Woven body) : Woven (guarded mode key offer body)

def Action.work? : Action → Option Key
  | publish _ e => some e.key
  | beginRun _ key _ | endRun _ key .. => some key
  | _ => none

abbrev Action.IsWork (a : Action) : Prop := a.work?.isSome

def Action.IsPublication : Action → Prop
  | publish .. => True
  | _ => False

theorem Action.IsPublication.isWork {a : Action} (publishes : a.IsPublication) : a.IsWork := by
  cases a with
  | publish => rfl
  | _ => cases publishes

/-- A woven program that takes the steps that `P` is true of in calls only. -/
inductive Program.Encloses (P : Action → Prop) : {α : Type} → Program α → Prop
  | value {α : Type} (a : α) : Encloses P (pure a)
  | one {a : Action} (inner : a.IsInner) (idle : ¬P a) : Encloses P (perform a)
  | bind {α β : Type} {p : Program α} {f : α → Program β} (first : Encloses P p)
      (rest : ∀ a, Encloses P (f a)) : Encloses P (p >>= f)
  | call {mode : Mode} {key : Key} {offer : Option ProducerId} {body : Program Resolved}
      (inside : body.Woven) : Encloses P (guarded mode key offer body)

def Runner.Encloses (runner : Runner) : Prop :=
  ∀ runtime {m : Mode} (script : Script m), (runner runtime script).Encloses Action.IsWork

namespace Program

variable {α β : Type} {setting : Setting} {runner : Runner} {runtime : Runtime} {key : Key}
  {slot : SlotId}

theorem Woven.return {p : Program α} (h : p.Woven) (f : α → β) :
    Woven (return f (← p)) :=
  h.bind fun a => .value (f a)

theorem Woven.after {a : Action} {f : a.Response → Program β} (inner : a.IsInner)
    (rest : ∀ r, (f r).Woven) : (perform a >>= f).Woven :=
  .bind (.one inner) rest

section Enclosing

variable {P Q : Action → Prop}

theorem Encloses.return {p : Program α} (h : p.Encloses P) (f : α → β) :
    Encloses P (return f (← p)) :=
  h.bind fun a => .value (f a)

theorem Encloses.after {a : Action} {f : a.Response → Program β} (inner : a.IsInner)
    (idle : ¬P a) (rest : ∀ r, (f r).Encloses P) : (perform a >>= f).Encloses P :=
  .bind (.one inner idle) rest

theorem Encloses.mono {p : Program α} (encloses : p.Encloses P) (sub : ∀ a, Q a → P a) :
    p.Encloses Q := by
  induction encloses with
  | value a => exact .value a
  | one inner idle => exact .one inner fun h => idle (sub _ h)
  | bind _ _ first rest => exact first.bind rest
  | call inside => exact .call inside

theorem Encloses.woven {p : Program α} (encloses : p.Encloses P) : p.Woven := by
  induction encloses with
  | value a => exact .value a
  | one inner => exact .one inner
  | bind _ _ first rest => exact first.bind rest
  | call inside => exact .call inside

theorem encloses_announce (idle : ∀ i notice, ¬P (.observe i notice)) (observers : Nat)
    (notice : Notice) : (announce observers notice).Encloses P := by
  unfold announce
  induction List.range observers with
  | nil => exact .value ()
  | cons i rest ih => exact .after trivial (idle i notice) fun _ => ih

end Enclosing

theorem woven_announce (observers : Nat) (notice : Notice) :
    (announce observers notice).Woven :=
  (encloses_announce (P := fun _ => False) (fun _ _ => id) observers notice).woven

theorem woven_publishEntry (e : Entry) : (publishEntry setting e).Woven :=
  Woven.after trivial fun _ => (woven_announce ..).bind fun _ => .value _

/-- Where a plain registration waits for the gate, it publishes nothing. -/
theorem encloses_takeGateSync : (takeGateSync runtime slot).Encloses Action.IsPublication := by
  refine .after trivial id fun free => ?_
  cases free with
  | true => exact .value _
  | false =>
      cases runtime with
      | currentThread => exact .value _
      | none | multiThread => exact .after trivial id fun _ => .value _

theorem encloses_waitFor {body : Runtime → Program Resolved}
    (hb : ∀ inside, (body inside).Encloses Action.IsPublication) :
    (waitFor runtime key body).Encloses Action.IsPublication := by
  cases runtime with
  | currentThread => exact .value _
  | none | multiThread => exact hb .multiThread

theorem encloses_initOnce {body : Program Resolved} (hb : body.Encloses Action.IsPublication) :
    (initOnce slot body).Encloses Action.IsPublication := by
  refine .after trivial id fun cached => ?_
  cases cached with
  | some inst => exact .value _
  | none =>
      refine hb.bind fun result => ?_
      cases result with
      | ok inst | error e => exact .after trivial id fun _ => .value _

theorem encloses_readRegistered {read : Entry → Program Resolved}
    (hread : ∀ e, (read e).Encloses Action.IsPublication) (r : Except ResolveError Entry) :
    (readRegistered key read r).Encloses Action.IsPublication := by
  cases r with
  | ok e => exact (hread e).return (checked key)
  | error e => exact .value _

theorem woven_registering {register : SlotId → Program (Except ResolveError Entry)}
    {read : Entry → Program Resolved} (hreg : ∀ slot, (register slot).Woven)
    (hread : ∀ e, (read e).Encloses Action.IsPublication) :
    (registering key register read).Woven := by
  refine Woven.after trivial fun slot => Woven.after trivial fun found => ?_
  cases found with
  | some e => exact (encloses_readRegistered hread (.ok e)).woven
  | none => exact (hreg slot).bind fun r => (encloses_readRegistered hread r).woven

theorem encloses_finding {read : Entry → Program Resolved}
    (hread : ∀ e, (read e).Encloses Action.IsPublication) :
    (finding key read).Encloses Action.IsPublication := by
  refine .after trivial id fun found => ?_
  cases found with
  | some e => exact (hread e).return (checked key)
  | none => exact .value _

theorem encloses_stateOf : (stateOf key).Encloses Action.IsWork := by
  refine .after trivial nofun fun found => ?_
  cases found with
  | none => exact .value _
  | some e =>
      obtain ⟨key, policy, slot, resolution⟩ := e
      cases resolution with
      | lazySingletonAsync p =>
          refine .after trivial nofun fun cached => ?_
          cases cached <;> exact .value _
      | _ => exact .value _

theorem encloses_reset : (reset setting).Encloses Action.IsWork :=
  .after trivial nofun fun _ => encloses_announce (fun _ _ => nofun) ..

section Runs

variable (hr : runner.Encloses)

include hr

theorem encloses_runProducer {m : Mode} (producer : Producer m) :
    (runProducer setting runner runtime slot key producer).Encloses Action.IsPublication := by
  have script (script : Script m) : (runner runtime script).Encloses Action.IsPublication :=
    (hr runtime script).mono fun _ publishes => publishes.isWork
  have told (notice : Notice) : (announce setting.observers notice).Encloses Action.IsPublication :=
    encloses_announce (fun _ _ => id) ..
  rw [runProducer_eq]
  refine (told _).bind fun _ => .after trivial id fun run => ?_
  refine (script _).bind fun outcome => .after trivial id fun result => ?_
  cases result with
  | ok inst | error e => exact (told _).bind fun _ => .value _

/-- Whoever reads an entry publishes nothing. -/
theorem encloses_readSync (e : Entry) :
    (readSync setting runner runtime e).Encloses Action.IsPublication := by
  unfold readSync
  cases e.resolution with
  | factory p => exact encloses_runProducer hr p
  | singleton inst | singletonAsync inst => exact .value _
  | lazySingleton p => exact encloses_initOnce (encloses_runProducer hr p)
  | factoryAsync p => exact encloses_waitFor fun _ => encloses_runProducer hr p
  | lazySingletonAsync p =>
      refine .after trivial id fun cached => ?_
      cases cached with
      | some inst => exact .value _
      | none =>
          exact encloses_waitFor fun _ => encloses_initOnce (encloses_runProducer hr p)

theorem encloses_readAsync (e : Entry) :
    (readAsync setting runner runtime e).Encloses Action.IsPublication := by
  unfold readAsync
  cases e.resolution with
  | factoryAsync p => exact encloses_runProducer hr p
  | singletonAsync inst => exact .value _
  | lazySingletonAsync p => exact encloses_initOnce (encloses_runProducer hr p)
  | factory | singleton | lazySingleton => exact encloses_readSync hr e

theorem woven_registerSync (policy : Policy) (producer : Producer .sync) :
    (registerSync setting runner runtime slot key policy producer).Woven := by
  have gated : (registerSyncGated setting runner runtime slot key policy producer).Woven := by
    refine Woven.after trivial fun found => ?_
    cases found with
    | some existing => exact .value _
    | none =>
        cases policy with
        | factory | lazySingleton => exact (woven_publishEntry _).return _
        | singleton =>
            refine (encloses_runProducer hr producer).woven.bind fun result => ?_
            cases result with
            | ok inst => exact (woven_publishEntry _).return _
            | error e => exact .value _
        | factoryAsync | singletonAsync | lazySingletonAsync => exact .value _
  refine encloses_takeGateSync.woven.bind fun taken => ?_
  cases taken with
  | true => exact gated.bind fun _ => Woven.after trivial fun _ => .value _
  | false => exact .value _

theorem woven_registerAsync (policy : Policy) (producer : Producer .async) :
    (registerAsync setting runner runtime slot key policy producer).Woven := by
  have gated : (registerAsyncGated setting runner runtime slot key policy producer).Woven := by
    refine Woven.after trivial fun found => ?_
    cases found with
    | some existing => exact .value _
    | none =>
        cases policy with
        | factoryAsync | lazySingletonAsync => exact (woven_publishEntry _).return _
        | singletonAsync =>
            refine (encloses_runProducer hr producer).woven.bind fun result => ?_
            cases result with
            | ok inst => exact (woven_publishEntry _).return _
            | error e => exact .value _
        | factory | singleton | lazySingleton => exact .value _
  exact Woven.after trivial fun _ => gated.bind fun _ => Woven.after trivial fun _ => .value _

/-- A call is one whole, whatever it does. -/
theorem encloses_entryPoint {P : Action → Prop} {m : Mode} (x : EntryPoint m) :
    (x.program setting runner runtime key).Encloses P := by
  cases x with
  | read =>
      cases m with
      | sync => exact .call (encloses_finding (encloses_readSync hr)).woven
      | async => exact .call (encloses_finding (encloses_readAsync hr)).woven
  | register policy producer =>
      cases m with
      | sync =>
          simp only [EntryPoint.program, getOrRegister]
          split
          · exact .value _
          · exact .call
              (woven_registering (fun _ => woven_registerSync hr _ _) (encloses_readSync hr))
      | async =>
          simp only [EntryPoint.program, getOrRegisterAsync]
          split
          · exact .call
              (woven_registering (fun _ => woven_registerAsync hr _ _) (encloses_readAsync hr))
          · exact .value _

theorem encloses_request {m : Mode} (request : Request m) :
    (request.program setting runner runtime).Encloses Action.IsWork := by
  have entry {m : Mode} (key : Key) (x : EntryPoint m) :
      Encloses Action.IsWork (return Reply.resolved (← x.program setting runner runtime key)) :=
    (encloses_entryPoint hr x).return Reply.resolved
  cases request with
  | get key => exact entry key (m := .sync) .read
  | getAsync key => exact entry key (m := .async) .read
  | resolve key => exact entry key (m := .sync) (.register _ ⟨.accessor key, _⟩)
  | resolveAsync key => exact entry key (m := .async) (.register _ ⟨.accessor key, _⟩)
  | register key policy script =>
      exact .after trivial nofun fun id =>
        entry key (m := .sync) (.register policy ⟨id, script⟩)
  | registerAsync key policy script =>
      exact .after trivial nofun fun id =>
        entry key (m := .async) (.register policy ⟨id, script⟩)
  | state key => exact encloses_stateOf.return Reply.state
  | reset => exact encloses_reset.bind fun _ => .value _
  | policyOf | contains | len | isEmpty | describe | pause | yield =>
      exact .after trivial nofun fun _ => .value _

end Runs

theorem encloses_script {call : Request .sync → Program Reply}
    {await : Request .async → Program Reply} (hcall : ∀ r, (call r).Encloses Action.IsWork)
    (hawait : ∀ r, (await r).Encloses Action.IsWork) {m : Mode} :
    (x : Script m) → (x.program call await).Encloses Action.IsWork
  | .finish _ => .value _
  | .note _ next => .after trivial nofun fun _ => encloses_script hcall hawait next
  | .call request next =>
      (hcall request).bind fun reply => encloses_script hcall hawait (next reply)
  | .await request next =>
      (hawait request).bind fun reply => encloses_script hcall hawait (next reply)

theorem encloses_runScript (level : Nat) : (runScript setting level).Encloses := by
  induction level with
  | zero => exact fun _ _ _ => .value _
  | succ level ih =>
      intro runtime m script
      exact encloses_script (fun r => encloses_request ih r) (fun r => encloses_request ih r) script

end Program

end Wiring.Registry
