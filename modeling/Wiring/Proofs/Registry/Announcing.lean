import Wiring.Proofs.Registry.Composition

/-!
What observers are told of entries that come and go. A step that publishes an entry or resets the
registry calls for a notice. Whatever producers ask for, a client brings each observer the notices
that its steps call for, each before its next such step, and owes none between its demands.
-/
namespace Wiring.Registry

def Notice.counted : Notice → List Notice
  | .registered key policy => [.registered key policy]
  | .reset dropped => [.reset dropped]
  | .producing _ | .produced _ | .failed .. => []

namespace Action

def due : (a : Action) → a.Response → List Notice
  | publish _ e, _ => [.registered e.key e.policy]
  | clearEntries, dropped => [.reset dropped]
  | _, _ => []

def tells (i : Nat) : Action → List Notice
  | observe j notice => if j = i then notice.counted else []
  | _ => []

theorem nonempty_response (a : Action) : Nonempty a.Response := by
  cases a with
  | enter | endRun => exact ⟨.error (.depthExceeded 0)⟩
  | publish _ e => exact ⟨e⟩
  | tryGate => exact ⟨true⟩
  | findEntry | readEntry | readCell | claimCell => exact ⟨none⟩
  | claimSlot | countEntries | clearEntries | beginRun => exact ⟨(0 : Nat)⟩
  | newProducer => exact ⟨ProducerId.given 0⟩
  | leave | takeGate | freeGate | fillCell | freeCell | observe | note | pause | yield =>
      exact ⟨()⟩

end Action

namespace Program

variable {α β : Type} {i : Nat}

/-- With `owed` to be told to observer `i` at its beginning, the latest notice first, `p` comes to
its end with `left` to be told, whatever it is answered. -/
def Settles (i : Nat) : Program α → List Notice → List Notice → Prop
  | done _, owed, left => owed = left
  | step a next, owed, left =>
      ∀ r, ∃ owed', a.due r ++ owed = owed' ++ a.tells i ∧ (next r).Settles i owed' left

theorem settles_pure {a : α} {owed : List Notice} : (pure a : Program α).Settles i owed owed := rfl

theorem Settles.bind {p : Program α} {f : α → Program β} {owed mid left : List Notice}
    (first : p.Settles i owed mid) (rest : ∀ a, (f a).Settles i mid left) :
    (p >>= f).Settles i owed left := by
  induction p generalizing owed with
  | done a =>
      obtain rfl : owed = mid := first
      exact rest a
  | step a next ih =>
      intro r
      obtain ⟨owed', balance, first⟩ := first r
      exact ⟨owed', balance, ih r first⟩

theorem Settles.return {p : Program α} {owed left : List Notice} (first : p.Settles i owed left)
    (f : α → β) : Settles i (return f (← p)) owed left :=
  first.bind fun _ => settles_pure

/-- What is owed at the beginning of a program is known from what is owed at its end. -/
theorem Settles.unique {p : Program α} {owed owed' left : List Notice}
    (h : p.Settles i owed left) (h' : p.Settles i owed' left) : owed = owed' := by
  induction p generalizing owed owed' with
  | done a => exact Eq.trans h (Eq.symm h')
  | step a next ih =>
      obtain ⟨r⟩ := Action.nonempty_response a
      obtain ⟨_, balance, rest⟩ := h r
      obtain ⟨_, balance', rest'⟩ := h' r
      rw [ih r rest rest', ← balance'] at balance
      exact List.append_cancel_left balance

end Program

namespace Program

variable {i : Nat} {setting : Setting} {runner : Runner} {runtime : Runtime} {key : Key}
  {slot : SlotId}

section Announce

variable {notice : Notice} {observers : List Nat}

theorem settles_forM_absent {owed : List Notice} (absent : i ∉ observers) :
    (observers.forM fun j => perform (.observe j notice)).Settles i owed owed := by
  induction observers with
  | nil => exact settles_pure
  | cons j rest ih =>
      obtain ⟨first, rest⟩ := not_or.1 (mt List.mem_cons.2 absent)
      intro _
      exact ⟨owed, by simp [Action.due, Action.tells, Ne.symm first], ih rest⟩

theorem settles_forM (there : i ∈ observers) (nodup : observers.Nodup) :
    (observers.forM fun j => perform (.observe j notice)).Settles i notice.counted [] := by
  induction observers with
  | nil => cases there
  | cons j rest ih =>
      obtain ⟨fresh, nodup⟩ := List.nodup_cons.1 nodup
      intro _
      by_cases here : j = i
      · subst here
        exact ⟨[], by simp [Action.due, Action.tells], settles_forM_absent fresh⟩
      · have later : i ∈ rest := (List.mem_cons.1 there).resolve_left (Ne.symm here)
        exact ⟨notice.counted, by simp [Action.due, Action.tells, here], ih later nodup⟩

/-- A notice for all observers reaches each of them once. -/
theorem settles_announce (hi : i < setting.observers) (notice : Notice) :
    (announce setting.observers notice).Settles i notice.counted [] :=
  settles_forM (List.mem_range.2 hi) List.nodup_range

end Announce

section Parts

theorem settles_quiet {α : Type} {a : Action} (quiet : a.IsQuiet) {f : a.Response → Program α}
    (rest : ∀ r, (f r).Settles i [] []) : (perform a >>= f).Settles i [] [] := by
  intro r
  refine ⟨[], ?_, rest r⟩
  cases a with
  | observe | publish | clearEntries => cases quiet
  | _ => rfl

theorem settles_unlessRegistered {p : Program (Except ResolveError Entry)}
    (settles : p.Settles i [] []) : (unlessRegistered slot p).Settles i [] [] := by
  refine settles_quiet (a := .readEntry slot) trivial fun found => ?_
  cases found with
  | some existing => exact settles_pure
  | none => exact settles

variable (hi : i < setting.observers)

include hi

theorem settles_publishEntry (e : Entry) : (publishEntry setting e).Settles i [] [] := by
  intro published
  refine ⟨[.registered e.key e.policy], rfl, ?_⟩
  exact (settles_announce hi (.registered e.key e.policy)).bind fun _ => settles_pure

theorem settles_reset : (reset setting).Settles i [] [] := by
  intro dropped
  exact ⟨[.reset dropped], rfl, settles_announce hi (.reset dropped)⟩

theorem settles_runProducer {m : Mode} {producer : Producer m}
    (settles : ∀ script : Script m, (runner runtime script).Settles i [] []) :
    (runProducer setting runner runtime slot key producer).Settles i [] [] := by
  rw [runProducer_eq]
  refine (settles_announce hi (.producing key)).bind fun _ run => ⟨[], rfl, ?_⟩
  refine (settles (producer.script run)).bind fun outcome result => ⟨[], rfl, ?_⟩
  cases result with
  | ok inst => exact (settles_announce hi (.produced key)).bind fun _ => settles_pure
  | error e => exact (settles_announce hi (.failed key e)).bind fun _ => settles_pure

theorem settles_eagerly {m : Mode} {producer : Producer m} {policy : Policy}
    {resolution : Instance → Resolution}
    (settles : ∀ script : Script m, (runner runtime script).Settles i [] []) :
    (eagerly setting runner runtime slot key policy producer resolution).Settles i [] [] := by
  refine (settles_runProducer hi settles).bind fun result => ?_
  cases result with
  | ok inst => exact (settles_publishEntry hi _).return Except.ok
  | error e => exact settles_pure

def settling : Composition setting setting where
  accessors := .refl setting
  Known _ _ := True
  Rel _ _ p _ _ := p.Settles i [] []
  later _ _ := trivial
  done _ := settles_pure
  bind first rest := first.bind fun a => rest a _ (List.suffix_refl _) fun _ _ => trivial
  quiet quiet rest := settles_quiet quiet fun r =>
    rest r _ (List.suffix_cons _ _) ⟨0, List.mem_cons_self⟩ fun _ _ => trivial
  forget settles := settles
  handed settles := settles_quiet (a := .newProducer) trivial fun id =>
    settles id _ (List.suffix_refl _)
  accessor settles := settles
  deferred _ _ _ _ := settles_unlessRegistered ((settles_publishEntry hi _).return Except.ok)
  run settles _ _ := settles_runProducer hi fun script => settles [] _ script
  eager settles _ _ _ := settles_unlessRegistered
    (settles_eagerly hi fun script => settles [] _ script)
  reset := settles_reset hi

/-- A client owes nothing to any observer once it is done. -/
theorem settles_work (demands : List Demand) : (work setting demands).Settles i [] [] :=
  (settling hi).work demands (h := [])

end Parts

end Program

end Wiring.Registry
