import Wiring.Proofs.Registry.Traces

/-!
Calls that are refused to wait. A plain call fails with an error that says so, and that no producer
has handed on, in few ways: it has come upon an entry that is awaited and not resolved, or upon a
gate that is held. Until then it has only looked.
-/
namespace Wiring.Registry

def Performed.failure? : Performed → Option ResolveError
  | ⟨_, .endRun .., .error e⟩ => some e
  | _ => none

def RunFails (own : List Performed) (error : ResolveError) : Prop :=
  ∃ x ∈ own, x.failure? = some error

instance (own : List Performed) (error : ResolveError) : Decidable (RunFails own error) :=
  inferInstanceAs (Decidable (∃ x ∈ own, _))

/-- A call for `key` with the steps given is itself refused to wait: no run of a producer has
failed with the error that it comes back with. -/
structure Refused (own : List Performed) (key : Key) (r : Resolved) : Prop where
  error : r = .error (.blockingInAsyncContext key.name)
  itself : ¬RunFails own (.blockingInAsyncContext key.name)

instance (own : List Performed) (key : Key) : (r : Resolved) → Decidable (Refused own key r)
  | .ok _ => isFalse fun h => nomatch h.error
  | .error e =>
      decidable_of_iff
        (e = .blockingInAsyncContext key.name ∧ ¬RunFails own (.blockingInAsyncContext key.name))
        ⟨fun h => ⟨congrArg _ h.1, h.2⟩, fun h => ⟨Except.error.inj h.error, h.itself⟩⟩

/-- What the registry always does: calls are not refused to wait as they begin, whoever may publish
an entry does, and a run makes an instance of its key. -/
def Performed.Honest : Performed → Prop
  | ⟨_, .enter .., .error e⟩ => ∀ service, e ≠ .blockingInAsyncContext service
  | ⟨_, .publish _ e, e'⟩ => e' = e
  | ⟨_, .endRun _ key _ _ _, .ok inst⟩ => inst.key = key
  | _ => True

/-- How a call for `key` that does not wait comes upon an entry. -/
inductive ComesUpon (c : ClientId) (key : Key) (e : Entry) : List Performed → Prop
  | found : ComesUpon c key e [⟨c, .findEntry key, some e⟩]
  | there {slot : SlotId} :
      ComesUpon c key e [⟨c, .claimSlot key, slot⟩, ⟨c, .readEntry slot, some e⟩]
  /-- It has been published since the call looked for it. -/
  | passed {slot : SlotId} :
      ComesUpon c key e [⟨c, .claimSlot key, slot⟩, ⟨c, .readEntry slot, none⟩,
        ⟨c, .tryGate slot, true⟩, ⟨c, .readEntry slot, some e⟩, ⟨c, .freeGate slot, ()⟩]

/-- How a read of an entry comes to where it would have to wait. -/
inductive Entry.Waits (c : ClientId) (e : Entry) : List Performed → Prop
  | fresh {p : Producer .async} (h : e.resolution = .factoryAsync p) : e.Waits c []
  | pending {p : Producer .async} (h : e.resolution = .lazySingletonAsync p) :
      e.Waits c [⟨c, .readCell e.slot, none⟩]

/-- What a call for `key` does between its entry and its end that is refused to wait. -/
inductive Declined (c : ClientId) (key : Key) : List Performed → Prop
  | awaited {e : Entry} {looks reads : List Performed} (comes : ComesUpon c key e looks)
      (waits : e.Waits c reads) : Declined c key (looks ++ reads)
  | held {slot : SlotId} :
      Declined c key [⟨c, .claimSlot key, slot⟩, ⟨c, .readEntry slot, none⟩,
        ⟨c, .tryGate slot, false⟩]

theorem RunFails.mono {own own' : List Performed} {error : ResolveError}
    (fails : RunFails own error) (sub : own ⊆ own') : RunFails own' error := by
  obtain ⟨x, there, failure⟩ := fails
  exact ⟨x, sub there, failure⟩

theorem eq_error_of_checked {key : Key} {r : Resolved} {service : String}
    (h : .error (.blockingInAsyncContext service) = Program.checked key r) :
    r = .error (.blockingInAsyncContext service) := by
  cases r with
  | ok inst =>
      simp only [Program.checked] at h
      split at h <;> cases h
  | error e =>
      cases h
      rfl

namespace Program

variable {setting : Setting} {runner : Runner} {runtime : Runtime} {key : Key} {slot : SlotId}
  {c : ClientId} {own : List Performed}

theorem runProducer_fails {m : Mode} {producer : Producer m} {error : ResolveError}
    (h : (runProducer setting runner runtime slot key producer).Traces c own (.error error)) :
    RunFails own error := by
  obtain ⟨run, inner, outcome, notice, -, rfl⟩ := traces_runProducer h
  exact ⟨⟨c, .endRun slot key producer.id run outcome, .error error⟩, by simp, rfl⟩

theorem initOnce_fails {body : Program Resolved} {error : ResolveError}
    (fails : ∀ inner, body.Traces c inner (.error error) → RunFails inner error)
    (h : (initOnce slot body).Traces c own (.error error)) : RunFails own error := by
  obtain ⟨cached, _, rfl, made⟩ := traces_perform.1 h
  cases cached with
  | some inst => cases made.2
  | none =>
      obtain ⟨inner, result, _, rfl, hb, last⟩ := traces_bind.1 made
      cases result with
      | ok inst =>
          obtain ⟨_, _, -, -, same⟩ := traces_perform.1 last
          cases same
      | error e =>
          obtain ⟨_, _, rfl, rfl, same⟩ := traces_perform.1 last
          cases same
          exact (fails inner hb).mono fun x hx => by simp [hx]

/-- A plain read fails with its producer, or it would have to wait on a thread that drives a
runtime alone. -/
theorem readSync_fails {e : Entry} {error : ResolveError}
    (h : (readSync setting runner runtime e).Traces c own (.error error)) :
    RunFails own error ∨ runtime = .currentThread ∧ e.Waits c own := by
  unfold readSync at h
  cases hr : e.resolution with
  | factory p =>
      rw [hr] at h
      exact .inl (runProducer_fails h)
  | singleton inst | singletonAsync inst =>
      rw [hr] at h
      cases h.2
  | lazySingleton p =>
      rw [hr] at h
      exact .inl (initOnce_fails (fun _ => runProducer_fails) h)
  | factoryAsync p =>
      rw [hr] at h
      cases runtime with
      | currentThread =>
          obtain ⟨rfl, -⟩ := h
          exact .inr ⟨rfl, .fresh hr⟩
      | none | multiThread => exact .inl (runProducer_fails h)
  | lazySingletonAsync p =>
      rw [hr] at h
      obtain ⟨cached, _, rfl, made⟩ := traces_perform.1 h
      cases cached with
      | some inst => cases made.2
      | none =>
          cases runtime with
          | currentThread =>
              obtain ⟨rfl, -⟩ := made
              exact .inr ⟨rfl, .pending hr⟩
          | none | multiThread =>
              exact .inl ((initOnce_fails (fun _ => runProducer_fails) made).mono
                (List.subset_cons_self _ _))

theorem traces_takeGateSync {free : Bool}
    (h : (takeGateSync runtime slot).Traces c own free) :
    own = [⟨c, .tryGate slot, true⟩] ∧ free = true ∨
      own = [⟨c, .tryGate slot, false⟩] ∧ free = false ∧ runtime = .currentThread ∨
      own = [⟨c, .tryGate slot, false⟩, ⟨c, .takeGate slot, ()⟩] ∧ free = true ∧
        runtime ≠ .currentThread := by
  obtain ⟨tried, _, rfl, rest⟩ := traces_perform.1 h
  cases tried with
  | true =>
      obtain ⟨rfl, rfl⟩ := rest
      exact .inl ⟨rfl, rfl⟩
  | false =>
      cases runtime with
      | currentThread =>
          obtain ⟨rfl, rfl⟩ := rest
          exact .inr (.inl ⟨rfl, rfl, rfl⟩)
      | none | multiThread =>
          obtain ⟨_, _, rfl, rfl, rfl⟩ := traces_perform.1 rest
          exact .inr (.inr ⟨rfl, rfl, nofun⟩)

theorem traces_publishEntry {e e' : Entry}
    (h : (publishEntry setting e).Traces c own e') :
    own = ⟨c, .publish e.slot e, e'⟩ ::
      tellings c setting.observers (.registered e.key e.policy) := by
  obtain ⟨stored, _, rfl, rest⟩ := traces_perform.1 h
  obtain ⟨_, told, rfl⟩ := traces_return.1 rest
  rw [traces_announce.1 told]

/-- What a plain registration comes to: the entry that is there, an entry of its own, which is
plain, the failure of its producer, or a gate that is held. -/
inductive Registration (c : ClientId) (runtime : Runtime) (slot : SlotId) (key : Key)
    (policy : Policy) : List Performed → Except ResolveError Entry → Prop
  | there {e : Entry} :
      Registration c runtime slot key policy
        [⟨c, .tryGate slot, true⟩, ⟨c, .readEntry slot, some e⟩, ⟨c, .freeGate slot, ()⟩] (.ok e)
  | waited {own : List Performed} {e : Entry} (undriven : runtime ≠ .currentThread) :
      Registration c runtime slot key policy own (.ok e)
  | new {own : List Performed} {e : Entry} (plain : e.resolution.policy.mode = .sync) :
      Registration c runtime slot key policy own (.ok e)
  | fails {own : List Performed} {error : ResolveError} (fails : RunFails own error) :
      Registration c runtime slot key policy own (.error error)
  | mismatch {own : List Performed} :
      Registration c runtime slot key policy own (.error (.policyMismatch key.name policy .sync))
  | held (driven : runtime = .currentThread) :
      Registration c runtime slot key policy [⟨c, .tryGate slot, false⟩]
        (.error (.blockingInAsyncContext key.name))

theorem published_honest {e e' : Entry} (h : (publishEntry setting e).Traces c own e')
    (honest : ∀ x ∈ own, x.Honest) : e' = e := by
  rw [traces_publishEntry h] at honest
  exact honest _ List.mem_cons_self

theorem registration_gated {policy : Policy} {producer : Producer .sync}
    {r : Except ResolveError Entry} {taking freeing : List Performed}
    (ht : taking = [⟨c, .tryGate slot, true⟩] ∨ runtime ≠ .currentThread)
    (hf : freeing = [⟨c, .freeGate slot, ()⟩])
    (h : (registerSyncGated setting runner runtime slot key policy producer).Traces c own r)
    (honest : ∀ x ∈ own, x.Honest) :
    Registration c runtime slot key policy (taking ++ own ++ freeing) r := by
  obtain ⟨found, _, rfl, rest⟩ := traces_perform.1 h
  cases found with
  | some e =>
      obtain ⟨rfl, rfl⟩ := rest
      subst hf
      obtain rfl | undriven := ht
      · exact .there
      · exact .waited undriven
  | none =>
      have honest := fun x hx => honest x (List.mem_cons_of_mem _ hx)
      cases policy with
      | factory | lazySingleton =>
          obtain ⟨e, hp, rfl⟩ := traces_return.1 rest
          rw [published_honest hp honest]
          exact .new rfl
      | singleton =>
          obtain ⟨ran, result, _, rfl, hr, last⟩ := traces_bind.1 rest
          cases result with
          | ok inst =>
              obtain ⟨e, hp, rfl⟩ := traces_return.1 last
              rw [published_honest hp fun x hx => honest x (List.mem_append_right _ hx)]
              exact .new rfl
          | error e =>
              obtain ⟨rfl, rfl⟩ := last
              exact .fails ((runProducer_fails hr).mono fun x hx => by simp [hx])
      | factoryAsync | singletonAsync | lazySingletonAsync =>
          obtain ⟨rfl, rfl⟩ := rest
          exact .mismatch

theorem registration {policy : Policy} {producer : Producer .sync}
    {r : Except ResolveError Entry}
    (h : (registerSync setting runner runtime slot key policy producer).Traces c own r)
    (honest : ∀ x ∈ own, x.Honest) : Registration c runtime slot key policy own r := by
  obtain ⟨taking, free, _, rfl, ht, rest⟩ := traces_bind.1 h
  cases free with
  | false =>
      obtain ⟨rfl, rfl⟩ := rest
      obtain ⟨-, hf⟩ | ⟨rfl, -, driven⟩ | ⟨-, hf, -⟩ := traces_takeGateSync ht
      · cases hf
      · exact .held driven
      · cases hf
  | true =>
      obtain ⟨gated, result, _, rfl, hg, last⟩ := traces_bind.1 rest
      obtain ⟨_, _, rfl, rfl, rfl⟩ := traces_perform.1 last
      have taken : taking = [⟨c, .tryGate slot, true⟩] ∨ runtime ≠ .currentThread := by
        obtain ⟨rfl, -⟩ | ⟨-, hf, -⟩ | ⟨-, -, undriven⟩ := traces_takeGateSync ht
        · exact .inl rfl
        · cases hf
        · exact .inr undriven
      rw [← List.append_assoc]
      exact registration_gated taken rfl hg fun x hx => honest x (by simp [hx])

end Program

theorem Entry.Waits.awaited {c : ClientId} {e : Entry} {own : List Performed}
    (waits : e.Waits c own) : e.resolution.policy.mode = .async := by
  cases waits with
  | fresh h | pending h =>
      rw [h]
      rfl

section Calls

open Program

variable {setting : Setting} {runner : Runner} {runtime : Runtime} {key : Key} {c : ClientId}
  {own : List Performed}

theorem declined_finding
    (h : (finding key (readSync setting runner runtime)).Traces c own
      (.error (.blockingInAsyncContext key.name)))
    (unfailed : ¬RunFails own (.blockingInAsyncContext key.name)) :
    runtime = .currentThread ∧ Declined c key own := by
  obtain ⟨found, _, rfl, rest⟩ := traces_perform.1 h
  cases found with
  | none => cases rest.2
  | some e =>
      obtain ⟨r, read, hr⟩ := traces_return.1 rest
      obtain rfl := eq_error_of_checked hr
      obtain fails | ⟨driven, waits⟩ := readSync_fails read
      · exact absurd (fails.mono (List.subset_cons_self _ _)) unfailed
      · exact ⟨driven, .awaited .found waits⟩

theorem declined_registering {policy : Policy} {producer : Producer .sync}
    (h : (registering key
        (fun slot => registerSync setting runner runtime slot key policy producer)
        (readSync setting runner runtime)).Traces c own
      (.error (.blockingInAsyncContext key.name)))
    (honest : ∀ x ∈ own, x.Honest)
    (unfailed : ¬RunFails own (.blockingInAsyncContext key.name)) :
    runtime = .currentThread ∧ Declined c key own := by
  obtain ⟨slot, _, rfl, claimed⟩ := traces_perform.1 h
  obtain ⟨found, _, rfl, rest⟩ := traces_perform.1 claimed
  have reads {e : Entry} {own' : List Performed}
      (unfailed : ¬RunFails own' (.blockingInAsyncContext key.name))
      (ht : (readRegistered key (readSync setting runner runtime) (.ok e)).Traces c own'
        (.error (.blockingInAsyncContext key.name))) :
      runtime = .currentThread ∧ e.Waits c own' := by
    obtain ⟨r, read, hr⟩ := traces_return.1 ht
    obtain rfl := eq_error_of_checked hr
    exact (readSync_fails read).resolve_left unfailed
  cases found with
  | some e =>
      obtain ⟨driven, waits⟩ :=
        reads (fun fails => unfailed (fails.mono fun x hx => by simp [hx])) rest
      exact ⟨driven, .awaited .there waits⟩
  | none =>
      obtain ⟨registered, r, last, rfl, hreg, hlast⟩ := traces_bind.1 rest
      have comes := registration hreg fun x hx => honest x (by simp [hx])
      cases r with
      | error error =>
          obtain ⟨rfl, same⟩ := hlast
          cases same
          cases comes with
          | fails fails => exact absurd (fails.mono fun x hx => by simp [hx]) unfailed
          | held driven => exact ⟨driven, .held⟩
      | ok e =>
          obtain ⟨driven, waits⟩ :=
            reads (fun fails => unfailed (fails.mono fun x hx => by simp [hx])) hlast
          cases comes with
          | there => exact ⟨driven, .awaited .passed waits⟩
          | waited undriven => exact absurd driven undriven
          | new plain => cases plain.symm.trans waits.awaited

/-- A plain call that is itself refused to wait is made on a thread that drives a runtime alone, and
it has only looked. -/
theorem declined_entryPoint (x : EntryPoint .sync) {r : Resolved}
    (h : (x.program setting runner runtime key).Traces c own r) (refused : Refused own key r)
    (honest : ∀ x ∈ own, x.Honest) :
    runtime = .currentThread ∧ ∃ task looks, Declined c key looks ∧
      own = ⟨c, .enter .sync key x.offer, .ok task⟩ ::
        (looks ++ [⟨c, .leave .sync key task r, ()⟩]) := by
  have unfailed := refused.itself
  obtain rfl := refused.error
  cases x with
  | read =>
      obtain ⟨e, rfl, same⟩ | ⟨task, looks, hb, rfl⟩ := traces_guarded.1 h
      · cases same
        exact absurd rfl (honest _ List.mem_cons_self key.name)
      · obtain ⟨driven, declined⟩ := declined_finding hb fun fails =>
          unfailed (fails.mono fun x hx => by simp [hx])
        exact ⟨driven, task, looks, declined, rfl⟩
  | register policy producer =>
      simp only [EntryPoint.program, getOrRegister] at h
      cases hp : policy.isAsync with
      | true =>
          rw [hp] at h
          cases h.2
      | false =>
          rw [hp] at h
          obtain ⟨e, rfl, same⟩ | ⟨task, looks, hb, rfl⟩ := traces_guarded.1 h
          · cases same
            exact absurd rfl (honest _ List.mem_cons_self key.name)
          · obtain ⟨driven, declined⟩ := declined_registering hb
              (fun x hx => honest x (by simp [hx]))
              fun fails => unfailed (fails.mono fun x hx => by simp [hx])
            exact ⟨driven, task, looks, declined, rfl⟩

end Calls

end Wiring.Registry
