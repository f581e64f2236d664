import Wiring.Proofs.Registry.Abiding

/-!
What the parts of a resolution come to: runs of producers, cells that are filled once, and the
reading of an entry. Each rule follows one function of `Program` and asks of the scripts of
producers only that they come back to the calls that were under way.
-/
namespace Wiring.Registry

variable {terms : Terms} {setting : Setting} {key : Key} {mode : Mode}
  {offer : Option ProducerId} {calls : List Call}

def Finishes (key : Key) (mode : Mode) (offer : Option ProducerId) (calls : List Call)
    (Q : Resolved → Prop) (calls' : List Call) (r : Resolved) : Prop :=
  ∃ s, calls' = ⟨key, mode, offer, s⟩ :: calls ∧ s.Ends key r ∧
    (∀ inst, r = .ok inst → inst.key = key) ∧ Q r

/-- The producer of `slot` can be run at stage `s`, which `begun` and `ended` follow. -/
structure Stage.Runs (terms : Terms) (key : Key) (offer : Option ProducerId) (s : Stage)
    (slot : SlotId) (p : ProducerId) (begun : Nat → Stage) (ended : Resolved → Stage) : Prop where
  idle : s.run? = none
  running : ∀ run, (begun run).run?.isSome
  begins : ∀ run s', s.Next terms key offer (.beginRun slot key p) run s' ↔ s' = begun run
  ends : ∀ run outcome r s',
    (begun run).Next terms key offer (.endRun slot key p run outcome) r s' ↔
    Made key p run outcome r ∧ s' = ended r

theorem runs_vacant {slot : SlotId} {p : ProducerId} (h : offer = some p) :
    (Stage.vacant slot).Runs terms key offer slot p (.trying slot p) (.tried slot) where
  idle := rfl
  running _ := rfl
  begins run s' := ⟨fun hn => by cases hn; rfl, fun hs => hs ▸ .attempt h⟩
  ends run outcome r s' :=
    ⟨fun hn => by cases hn with | tried hm => exact ⟨hm, rfl⟩, fun ⟨hm, hs⟩ => hs ▸ .tried hm⟩

theorem runs_reading {e : Entry} {p : ProducerId} (hl : e.resolution.isLazy = false)
    (hp : e.resolution.producer? = some p) :
    (Stage.reading e).Runs terms key offer e.slot p (.making e p) (.made e) where
  idle := rfl
  running _ := rfl
  begins run s' := ⟨fun hn => by cases hn; rfl, fun hs => hs ▸ .makeFresh hl hp⟩
  ends run outcome r s' :=
    ⟨fun hn => by cases hn with | made hm => exact ⟨hm, rfl⟩, fun ⟨hm, hs⟩ => hs ▸ .made hm⟩

theorem runs_filling {e : Entry} {p : ProducerId} (hl : e.resolution.isLazy)
    (hp : e.resolution.producer? = some p) :
    (Stage.filling e).Runs terms key offer e.slot p (.making e p) (.made e) where
  idle := rfl
  running _ := rfl
  begins run s' := ⟨fun hn => by cases hn; rfl, fun hs => hs ▸ .makeShared hl hp⟩
  ends run outcome r s' :=
    ⟨fun hn => by cases hn with | made hm => exact ⟨hm, rfl⟩, fun ⟨hm, hs⟩ => hs ▸ .made hm⟩

namespace Program

theorem abides_forM_observe {notice : Notice} (h : notice.registered? = none) (is : List Nat)
    {post : List Call → Unit → Prop} (hpost : post calls ()) :
    Abides terms (is.forM fun i => perform (.observe i notice)) calls
      (is.forM fun i => perform (.observe i notice)) post := by
  induction is with
  | nil => exact abides_pure hpost
  | cons i is ih =>
      apply abides_perform_bind (open_observe h)
      intro r calls' hm
      cases move_observe h hm
      exact ih

theorem abides_announce {notice : Notice} (h : notice.registered? = none)
    {post : List Call → Unit → Prop} (hpost : post calls ()) :
    Abides terms (announce setting.observers notice) calls
      (announce setting.observers notice) post :=
  abides_forM_observe h _ hpost

theorem abides_tell {e : Entry} (hk : e.key = key) (n told : Nat) (hn : told + n = terms.observers)
    {post : List Call → Unit → Prop}
    (hpost : post (⟨key, mode, offer, .announcing e terms.observers⟩ :: calls) ()) :
    Abides terms
      ((List.range' told n).forM fun i => perform (.observe i (.registered e.key e.policy)))
      (⟨key, mode, offer, .announcing e told⟩ :: calls)
      ((List.range' told n).forM fun i => perform (.observe i (.registered e.key e.policy)))
      post := by
  subst hk
  induction n generalizing told with
  | zero =>
      obtain rfl : told = terms.observers := by omega
      exact abides_pure hpost
  | succ n ih =>
      simp only [List.range'_succ]
      apply abides_perform_bind (open_own (.tell (by omega)))
      intro r calls' hm
      obtain ⟨s, hs, rfl⟩ := hm.own_of_idle rfl (by simp)
      cases hs with
      | tell => exact ih (told + 1) (by omega)
      | observe h => simp [Notice.registered?] at h

theorem abides_publishEntry (hobs : terms.observers = setting.observers) {e : Entry} {s : Stage}
    (hk : e.key = key) (idle : s.run? = none)
    (h : ∀ r s', s.Next terms key offer (.publish e.slot e) r s' ↔ r = e ∧ s' = .announcing e 0)
    {post : List Call → Entry → Prop}
    (hpost : post (⟨key, mode, offer, .announcing e terms.observers⟩ :: calls) e) :
    Abides terms (publishEntry setting e) (⟨key, mode, offer, s⟩ :: calls)
      (publishEntry setting e) post := by
  unfold publishEntry
  refine abides_perform_bind (open_own ((h e _).2 ⟨rfl, rfl⟩)) fun r calls' hm => ?_
  obtain ⟨s', hs, rfl⟩ := hm.own_of_idle idle (by simp)
  obtain ⟨hr, rfl⟩ := (h r s').1 hs
  subst r
  unfold announce
  rw [List.range_eq_range', ← hobs]
  exact abides_bind (abides_tell hk _ 0 (by omega) (abides_pure hpost))

/-- A run of a producer, whose script comes back to the call with an outcome that `O` is true of. -/
theorem abides_runProducer {runner runner' : Runner} {runtime : Runtime} {slot : SlotId} {m : Mode}
    {p : Producer m} {s : Stage} {begun : Nat → Stage} {ended : Resolved → Stage}
    (hs : s.Runs terms key offer slot p.id begun ended) {O : Outcome → Prop}
    (hrun : ∀ run, (runner runtime (p.script run)).Abides terms
      (⟨key, mode, offer, begun run⟩ :: calls) (runner' runtime (p.script run))
      fun calls' o => calls' = ⟨key, mode, offer, begun run⟩ :: calls ∧ O o)
    {post : List Call → Resolved → Prop}
    (hpost : ∀ run o r, O o → Made key p.id run o r →
      post (⟨key, mode, offer, ended r⟩ :: calls) r) :
    Abides terms (runProducer setting runner runtime slot key p)
      (⟨key, mode, offer, s⟩ :: calls) (runProducer setting runner' runtime slot key p) post := by
  rw [runProducer_eq, runProducer_eq]
  refine abides_bind (abides_announce rfl ?_)
  apply abides_perform_bind (open_own ((hs.begins 0 _).2 rfl))
  intro run calls' hm
  obtain ⟨s', hn, rfl⟩ := hm.own_of_idle hs.idle (by simp)
  obtain rfl := (hs.begins run s').1 hn
  apply abides_bind
  apply (hrun run).mono
  intro _ o given
  obtain ⟨rfl, ho⟩ := given
  refine abides_perform_bind (open_own ((hs.ends run o _ _).2 ⟨⟨0, rfl⟩, rfl⟩))
    fun r calls' hm => ?_
  obtain ⟨s', hn, rfl⟩ := hm.own_of_inner (by simp [Action.IsAside]) (by simp) (by simp)
  obtain ⟨hr, rfl⟩ := (hs.ends run o r s').1 hn
  have done := hpost run o r ho hr
  cases r with
  | ok inst => exact abides_bind (abides_announce rfl (abides_pure done))
  | error e => exact abides_bind (abides_announce rfl (abides_pure done))

theorem abides_initOnce {e : Entry} (hl : e.resolution.isLazy) {body body' : Program Resolved}
    {post : List Call → Resolved → Prop}
    (cached : ∀ inst, terms.inst inst → inst.key = key →
      post (⟨key, mode, offer, .settled e inst⟩ :: calls) (.ok inst))
    (hbody : body.Abides terms (⟨key, mode, offer, .filling e⟩ :: calls) body' fun calls' r =>
      calls' = ⟨key, mode, offer, .made e r⟩ :: calls ∧
        (∀ inst, r = .ok inst → terms.inst inst ∧ inst.key = key) ∧
        ∀ error, r = .error error → post (⟨key, mode, offer, .failed error⟩ :: calls) r) :
    Abides terms (initOnce e.slot body) (⟨key, mode, offer, .reading e⟩ :: calls)
      (initOnce e.slot body') post := by
  unfold initOnce
  apply abides_perform_bind (open_own (.claimCell hl))
  intro r calls' hm
  obtain ⟨s, hs, rfl⟩ := hm.own_of_idle rfl (by simp)
  cases hs with
  | share _ hi hk => exact abides_pure (cached _ hi hk)
  | claimCell =>
      apply abides_bind
      apply hbody.mono
      intro _ r given
      obtain ⟨rfl, hi, hpost⟩ := given
      cases r with
      | ok inst =>
          obtain ⟨hi, hk⟩ := hi inst rfl
          apply abides_perform_bind (open_own (.fill hl hi hk))
          intro r calls' hm
          obtain ⟨s, hs, rfl⟩ := hm.own_of_idle rfl (by simp)
          cases hs with
          | fill => exact abides_pure (cached inst hi hk)
      | error error =>
          apply abides_perform_bind (open_own (.unfill hl))
          intro r calls' hm
          obtain ⟨s, hs, rfl⟩ := hm.own_of_idle rfl (by simp)
          cases hs with
          | unfill => exact abides_pure (hpost error rfl)

end Program

/-- Every run of a producer, at any stage of the call at the top that runs one, comes back with an
outcome that `O` is true of, on whatever thread it is made. -/
def Producer.Abides {m : Mode} (p : Producer m) (terms : Terms) (runner runner' : Runner)
    (key : Key) (mode : Mode) (offer : Option ProducerId) (calls : List Call) (O : Outcome → Prop) :
    Prop :=
  ∀ runtime, (runtime = .currentThread → terms.driven) → ∀ run s, s.run?.isSome →
    (runner runtime (p.script run)).Abides terms (⟨key, mode, offer, s⟩ :: calls)
      (runner' runtime (p.script run)) fun calls' o =>
        calls' = ⟨key, mode, offer, s⟩ :: calls ∧ O o

/-- The results that reading an entry in a call of the mode can have are some that `Q` is true
of. -/
structure Entry.Gives (terms : Terms) (mode : Mode) (e : Entry) (O : Outcome → Prop)
    (Q : Resolved → Prop) : Prop where
  stored : ∀ inst, e.resolution.instance? = some inst → Q (.ok inst)
  cached : ∀ inst, e.resolution.isLazy → terms.inst inst → inst.key = e.key → Q (.ok inst)
  made : ∀ p run o r, e.resolution.producer? = some p → O o → Made e.key p run o r → Q r
  kept : ∀ p run o inst, e.resolution.producer? = some p → O o →
    Made e.key p run o (.ok inst) → terms.inst inst
  blocked : mode = .sync → e.policy.mode = .async → Q (.error (.blockingInAsyncContext e.key.name))

namespace Program

variable {runner runner' : Runner} {runtime : Runtime} {e : Entry} {O : Outcome → Prop}
  {Q : Resolved → Prop}

theorem abides_stored (sound : e.Sound) (gives : e.Gives terms mode O Q) {inst : Instance}
    (h : e.resolution.instance? = some inst) :
    Abides terms (pure (.ok inst)) (⟨e.key, mode, offer, .reading e⟩ :: calls) (pure (.ok inst))
      (Finishes e.key mode offer calls Q) :=
  abides_pure ⟨_, rfl, .stored h, fun _ hi => by cases hi; exact sound.key _ h,
    gives.stored _ h⟩

theorem abides_fresh (gives : e.Gives terms mode O Q) {m : Mode} {p : Producer m}
    (hl : e.resolution.isLazy = false) (hp : e.resolution.maker? = some ⟨m, p⟩)
    (driven : runtime = .currentThread → terms.driven)
    (hrun : p.Abides terms runner runner' e.key mode offer calls O) :
    Abides terms (runProducer setting runner runtime e.slot e.key p)
      (⟨e.key, mode, offer, .reading e⟩ :: calls)
      (runProducer setting runner' runtime e.slot e.key p)
      (Finishes e.key mode offer calls Q) := by
  have hid : e.resolution.producer? = some p.id := by simp [Resolution.producer?, hp]
  apply abides_runProducer (runs_reading hl hid) (fun run => hrun runtime driven run _ rfl)
  intro run o r ho hr
  refine ⟨_, rfl, ?_, fun inst hi => (hi ▸ hr).key, gives.made _ _ _ _ hid ho hr⟩
  cases r with
  | ok inst => exact .fresh hl
  | error error => exact .spoiled hl

theorem abides_lazy (gives : e.Gives terms mode O Q) {m : Mode} {p : Producer m}
    (hl : e.resolution.isLazy) (hp : e.resolution.maker? = some ⟨m, p⟩)
    (driven : runtime = .currentThread → terms.driven)
    (hrun : p.Abides terms runner runner' e.key mode offer calls O) :
    Abides terms (initOnce e.slot (runProducer setting runner runtime e.slot e.key p))
      (⟨e.key, mode, offer, .reading e⟩ :: calls)
      (initOnce e.slot (runProducer setting runner' runtime e.slot e.key p))
      (Finishes e.key mode offer calls Q) := by
  have hid : e.resolution.producer? = some p.id := by simp [Resolution.producer?, hp]
  refine abides_initOnce hl ?_ ?_
  · intro inst hi hk
    exact ⟨_, rfl, .cached, fun _ h => by cases h; exact hk, gives.cached inst hl hi hk⟩
  · apply abides_runProducer (runs_filling hl hid) (fun run => hrun runtime driven run _ rfl)
    intro run o r ho hr
    refine ⟨rfl, ?_, ?_⟩
    · intro inst he
      subst he
      exact ⟨gives.kept _ _ _ _ hid ho hr, hr.key⟩
    · intro error he
      subst he
      exact ⟨_, rfl, .failed, by simp, gives.made _ _ _ _ hid ho hr⟩

theorem abides_waitFor (gives : e.Gives terms mode O Q) (plain : mode = .sync)
    (hm : e.policy.mode = .async)
    {body body' : Runtime → Program Resolved}
    (h : (body .multiThread).Abides terms (⟨e.key, mode, offer, .reading e⟩ :: calls)
      (body' .multiThread) (Finishes e.key mode offer calls Q)) :
    Abides terms (waitFor runtime e.key body) (⟨e.key, mode, offer, .reading e⟩ :: calls)
      (waitFor runtime e.key body') (Finishes e.key mode offer calls Q) := by
  cases runtime with
  | none | multiThread => exact h
  | currentThread =>
      exact abides_pure ⟨_, rfl, .awaited hm, by simp, gives.blocked plain hm⟩

theorem abides_readSync (sound : e.Sound) (gives : e.Gives terms mode O Q)
    (plain : e.policy.mode = .async → mode = .sync)
    (driven : runtime = .currentThread → terms.driven)
    (hrun : ∀ p, e.resolution.maker? = some p →
      p.2.Abides terms runner runner' e.key mode offer calls O) :
    Abides terms (readSync setting runner runtime e)
      (⟨e.key, mode, offer, .reading e⟩ :: calls) (readSync setting runner' runtime e)
      (Finishes e.key mode offer calls Q) := by
  have policy := sound.policy
  unfold readSync
  cases hr : e.resolution with
  | factory p =>
      exact abides_fresh gives (by rw [hr]; rfl) (by rw [hr]; rfl) driven
        (hrun _ (by rw [hr]; rfl))
  | singleton inst | singletonAsync inst =>
      exact abides_stored sound gives (by rw [hr]; rfl)
  | lazySingleton p =>
      exact abides_lazy gives (by rw [hr]; rfl) (by rw [hr]; rfl) driven
        (hrun _ (by rw [hr]; rfl))
  | factoryAsync p =>
      have awaited : e.policy.mode = .async := by rw [← policy, hr]; rfl
      apply abides_waitFor gives (plain awaited) awaited
      exact abides_fresh gives (by rw [hr]; rfl) (by rw [hr]; rfl) nofun
        (hrun _ (by rw [hr]; rfl))
  | lazySingletonAsync p =>
      have hl : e.resolution.isLazy := by rw [hr]; rfl
      apply abides_perform_bind (open_own .unseen)
      intro r calls' hm
      obtain ⟨s, hs, rfl⟩ := hm.own_of_idle rfl (by simp)
      cases hs with
      | see _ hi hk =>
          exact abides_pure ⟨_, rfl, .cached, fun _ h => by cases h; exact hk,
            gives.cached _ hl hi hk⟩
      | unseen =>
          have awaited : e.policy.mode = .async := by rw [← policy, hr]; rfl
          apply abides_waitFor gives (plain awaited) awaited
          exact abides_lazy gives hl (by rw [hr]; rfl) nofun (hrun _ (by rw [hr]; rfl))

theorem abides_readAsync (sound : e.Sound) (gives : e.Gives terms mode O Q)
    (driven : runtime = .currentThread → terms.driven)
    (hrun : ∀ p, e.resolution.maker? = some p →
      p.2.Abides terms runner runner' e.key mode offer calls O) :
    Abides terms (readAsync setting runner runtime e)
      (⟨e.key, mode, offer, .reading e⟩ :: calls) (readAsync setting runner' runtime e)
      (Finishes e.key mode offer calls Q) := by
  unfold readAsync
  cases hr : e.resolution with
  | factoryAsync p =>
      exact abides_fresh gives (by rw [hr]; rfl) (by rw [hr]; rfl) driven
        (hrun _ (by rw [hr]; rfl))
  | singletonAsync inst => exact abides_stored sound gives (by rw [hr]; rfl)
  | lazySingletonAsync p =>
      exact abides_lazy gives (by rw [hr]; rfl) (by rw [hr]; rfl) driven
        (hrun _ (by rw [hr]; rfl))
  | factory p | singleton inst | lazySingleton p =>
      refine abides_readSync sound gives (fun awaited => ?_) driven hrun
      rw [← sound.policy, hr] at awaited
      cases awaited

end Program

end Wiring.Registry
