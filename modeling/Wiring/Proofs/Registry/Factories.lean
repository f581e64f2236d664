import Wiring.Proofs.Registry.Accounting
import Wiring.Proofs.Registry.Enclosure
import Wiring.Proofs.Registry.FailedCalls
import Wiring.Proofs.Registry.RefusalToWait
import Wiring.Proofs.Registry.Renewal

/-!
Factories. Every call that comes back with an instance of a factory has run its producer once, and
comes back with what this run has made. The call that registers a factory publishes the entry before
it runs anything, and then reads it as any other call does, so it runs the producer once as well.
The entry stays as it is.
-/
namespace Wiring.Registry

namespace Program

section Founding

variable {α : Type} {c : ClientId} {own : List Performed} {setting : Setting}
  {runner : Runner} {runtime : Runtime} {slot slot' : SlotId} {key : Key} {policy : Policy}
  {e e' found : Entry} {r : Resolved} {E : Entry → Prop}

theorem Only.traces {P : Action → Prop} {p : Program α} {a : α} (only : p.Only P)
    (h : p.Traces c own a) : ∀ y ∈ own, P y.action := by
  induction p generalizing own with
  | done b =>
      obtain ⟨rfl, -⟩ := h
      simp
  | step action next ih =>
      obtain ⟨r, rest, rfl, h⟩ := h
      intro y hy
      cases hy with
      | head => exact only.1
      | tail _ hy => exact ih r (only.2 r) h y hy

/-- A factory that a registration publishes outside of calls is one that `E` is true of, and the
registration comes back with what is stored then. -/
def Founds (E : Entry → Prop) (p : Program (Except ResolveError Entry)) : Prop :=
  ∀ ⦃c : ClientId⦄ ⦃before after : List Performed⦄ ⦃slot : SlotId⦄ ⦃e found : Entry⦄
    ⦃res : Except ResolveError Entry⦄,
    p.Traces c (before ++ ⟨c, .publish slot e, found⟩ :: after) res → Opens c before [] →
      e.policy.isShared = false → E e ∧ res = .ok found

theorem founds_pure (res : Except ResolveError Entry) : Founds E (pure res) := by
  intro c before after slot e found res h level fresh
  simp [traces_pure] at h

theorem founds_publishEntry (fresh : e'.policy.isShared = false → E e') :
    Founds E (return .ok (← publishEntry setting e')) := by
  intro c before after slot e found res h level fresh'
  obtain ⟨stored, published, rfl⟩ := traces_return.1 h
  have there := traces_publishEntry published
  cases before with
  | nil =>
      cases there
      exact ⟨fresh fresh', rfl⟩
  | cons y before =>
      have told : before ++ ⟨c, .publish slot e, found⟩ :: after = tellings c setting.observers _ :=
        (List.cons.inj there).2
      have here : (⟨c, .publish slot e, found⟩ : Performed) ∈ before ++ _ :: after :=
        List.mem_append_right before List.mem_cons_self
      rw [told] at here
      simp [tellings] at here

theorem Founds.after {p : Program α} {f : α → Program (Except ResolveError Entry)}
    (encloses : p.Encloses Action.IsPublication) (rest : ∀ a, (f a).Founds E) :
    (p >>= f).Founds E := by
  intro c before after slot e found res h level fresh
  obtain ⟨first, a, more, rfl, -, hf, level⟩ := encloses.traces_bind h trivial trivial level
  exact rest a hf level fresh

theorem Founds.release {p : Program (Except ResolveError Entry)} (founds : p.Founds E) :
    Founds E (do
      let entry ← p
      perform (.freeGate slot)
      return entry) := by
  intro c before after slot' e found res h level fresh
  obtain ⟨mid, a, rest, -, hp, hf⟩ | ⟨first, a, more, -, -, hf⟩ := traces_bind_inner h
  · obtain ⟨_, _, -, -, rfl⟩ := traces_perform.1 hf
    exact founds hp level fresh
  · obtain ⟨_, _, eq, rfl, -⟩ := traces_perform.1 hf
    obtain ⟨-, eq⟩ | ⟨-, eq⟩ := List.append_eq_singleton_iff.1 eq <;> cases eq

theorem founds_registerSync (hr : runner.Encloses) (producer : Producer .sync) :
    (registerSync setting runner runtime slot key policy producer).Founds fun e =>
      policy.isEager = false ∧ e = ⟨key, .factory, slot, .factory producer⟩ := by
  refine Founds.after encloses_takeGateSync fun free => ?_
  cases free with
  | false => exact founds_pure _
  | true =>
      refine Founds.release (Founds.after (.one (a := .readEntry slot) trivial id) fun found => ?_)
      cases found with
      | some existing => exact founds_pure _
      | none =>
          cases policy with
          | factory => exact founds_publishEntry fun _ => ⟨rfl, rfl⟩
          | lazySingleton => exact founds_publishEntry nofun
          | singleton =>
              refine Founds.after (encloses_runProducer hr producer) fun result => ?_
              cases result with
              | ok inst => exact founds_publishEntry nofun
              | error error => exact founds_pure _
          | factoryAsync | singletonAsync | lazySingletonAsync => exact founds_pure _

theorem founds_registerAsync (hr : runner.Encloses) (producer : Producer .async) :
    (registerAsync setting runner runtime slot key policy producer).Founds fun e =>
      policy.isEager = false ∧ e = ⟨key, .factoryAsync, slot, .factoryAsync producer⟩ := by
  refine Founds.after (.one (a := .takeGate slot) trivial id) fun _ => ?_
  refine Founds.release (Founds.after (.one (a := .readEntry slot) trivial id) fun found => ?_)
  cases found with
  | some existing => exact founds_pure _
  | none =>
      cases policy with
      | factoryAsync => exact founds_publishEntry fun _ => ⟨rfl, rfl⟩
      | lazySingletonAsync => exact founds_publishEntry nofun
      | singletonAsync =>
          refine Founds.after (encloses_runProducer hr producer) fun result => ?_
          cases result with
          | ok inst => exact founds_publishEntry nofun
          | error error => exact founds_pure _
      | factory | singleton | lazySingleton => exact founds_pure _

/-- What a call that founds a factory does: it looks for an entry, publishes one, and reads it. -/
theorem traces_registering_founds {register : SlotId → Program (Except ResolveError Entry)}
    {read : Entry → Program Resolved} {E : SlotId → Entry → Prop}
    (woven : ∀ slot, (register slot).Woven) (founds : ∀ slot, (register slot).Founds (E slot))
    (reads : ∀ e, (read e).Encloses Action.IsPublication) {before after : List Performed}
    (h : (registering key register read).Traces c
      (before ++ ⟨c, .publish slot e, found⟩ :: after) r)
    (level : Opens c before []) (fresh : e.policy.isShared = false) :
    ∃ slot' registered last r', E slot' e ∧
      before ++ ⟨c, .publish slot e, found⟩ :: after =
        ⟨c, .claimSlot key, slot'⟩ :: ⟨c, .readEntry slot', none⟩ :: (registered ++ last) ∧
      (register slot').Traces c registered (.ok found) ∧ (read found).Traces c last r' ∧
        r = checked key r' := by
  have look {a : Action} (inner : a.IsInner) (idle : ¬a.IsPublication) :
      (perform a).Encloses Action.IsPublication := .one inner idle
  obtain ⟨_, slot', more, rfl, claimed, looking, level'⟩ :=
    (look (a := .claimSlot key) trivial id).traces_bind h trivial trivial level
  obtain ⟨_, there, first, rfl, looked, rest, level''⟩ :=
    (look (a := .readEntry slot') trivial id).traces_bind looking trivial trivial level'
  obtain rfl := traces_one.1 claimed
  obtain rfl := traces_one.1 looked
  cases there with
  | some existing =>
      obtain ⟨call, stack, opens⟩ :=
        (encloses_readRegistered reads (.ok existing)).opens rest trivial trivial
      cases opens.unique level''
  | none =>
      obtain ⟨mid, res, last, rfl, registered, reading⟩ :=
        traces_bind_first (woven slot') (encloses_readRegistered reads) rest trivial trivial level''
      obtain ⟨he, rfl⟩ := founds slot' registered level'' fresh
      obtain ⟨r', read_traces, rfl⟩ := traces_return.1 reading
      exact ⟨slot', _, last, r', he, by simp, registered, read_traces, rfl⟩

/-- What the program of a call does that has founded `e`, a factory with the given producer: before
it runs the producer once it runs nothing, and afterwards it leaves. -/
def FoundsBy (setting : Setting) (runner : Runner) (runtime : Runtime) (key : Key) {m : Mode}
    (offer : Option ProducerId) (producer : Producer m) (c : ClientId) (e : Entry)
    (own : List Performed) (r : Resolved) : Prop :=
  e.resolution.maker? = some ⟨m, producer⟩ ∧ ∃ task first ran r',
    own = ⟨c, .enter m key offer, .ok task⟩ :: (first ++ ran ++ [⟨c, .leave m key task r, ()⟩]) ∧
      Opens c first [] ∧ (∀ y ∈ first, ¬y.action.IsRun) ∧
        (runProducer setting runner runtime e.slot e.key producer).Traces c ran r' ∧
          r = checked key r'

theorem traces_guarded_founds {m : Mode} {offer : Option ProducerId} {producer : Producer m}
    {register : SlotId → Program (Except ResolveError Entry)} {read : Entry → Program Resolved}
    {E : SlotId → Entry → Prop} (woven : ∀ slot, (register slot).Woven)
    (founds : ∀ slot, (register slot).Founds (E slot))
    (reads : ∀ e, (read e).Encloses Action.IsPublication)
    (founded : ∀ slot e, E slot e → e.resolution.maker? = some ⟨m, producer⟩ ∧
      (register slot).Only (fun a => ¬a.IsRun) ∧
        read e = runProducer setting runner runtime e.slot e.key producer)
    {before after : List Performed}
    (h : (guarded m key offer (registering key register read)).Traces c
      (before ++ ⟨c, .publish slot e, e⟩ :: after) r)
    (level : ∀ task first, before = ⟨c, .enter m key offer, .ok task⟩ :: first →
      ∀ stack, Opens c first stack → stack = [])
    (fresh : e.policy.isShared = false) :
    FoundsBy setting runner runtime key offer producer c e
      (before ++ ⟨c, .publish slot e, e⟩ :: after) r := by
  obtain ⟨task, first, mid, rfl, rfl, inside⟩ := traces_guarded_inner h trivial
  obtain ⟨stack, opens⟩ := (woven_registering woven reads).opens_before inside trivial
  obtain rfl := level task first rfl stack opens
  obtain ⟨slot', registered, ran, r', he, split, hreg, hread, rfl⟩ :=
    traces_registering_founds woven founds reads inside opens fresh
  obtain ⟨made, idle, eq⟩ := founded slot' e he
  rw [eq] at hread
  refine ⟨made, task, ⟨c, .claimSlot key, slot'⟩ :: ⟨c, .readEntry slot', none⟩ :: registered, ran,
    r', ?_, ?_, ?_, hread, rfl⟩
  · have whole := congrArg (· ++ [(⟨c, .leave m key task (checked key r'), ()⟩ : Performed)]) split
    simpa using whole
  · have claimed : Opens c [⟨c, .claimSlot key, slot'⟩] [] := .inner (a := .claimSlot key) trivial
    have looked : Opens c [⟨c, .readEntry slot', none⟩] [] := .inner (a := .readEntry slot') trivial
    exact claimed.append (looked.append ((woven slot').opens hreg))
  · intro y hy
    simp only [List.mem_cons] at hy
    obtain rfl | rfl | hy := hy
    · exact id
    · exact id
    · exact idle.traces hreg y hy

/-- Whichever call founds a factory is a registering call that was handed its producer. -/
theorem traces_entryPoint_founds (hr : runner.Encloses) {m : Mode} (x : EntryPoint m)
    {before after : List Performed}
    (h : (x.program setting runner runtime key).Traces c
      (before ++ ⟨c, .publish slot e, e⟩ :: after) r)
    (level : ∀ task first, before = ⟨c, .enter m key x.offer, .ok task⟩ :: first →
      ∀ stack, Opens c first stack → stack = [])
    (fresh : e.policy.isShared = false) :
    ∃ policy producer, x = .register policy producer ∧
      FoundsBy setting runner runtime key x.offer producer c e
        (before ++ ⟨c, .publish slot e, e⟩ :: after) r := by
  cases x with
  | read =>
      have reads {read : Entry → Program Resolved}
          (hread : ∀ e, (read e).Encloses Action.IsPublication)
          (h : (guarded m key none (finding key read)).Traces c
            (before ++ ⟨c, .publish slot e, e⟩ :: after) r) : False := by
        obtain ⟨task, first, mid, rfl, -, inside⟩ := traces_guarded_inner h trivial
        obtain ⟨call, stack, opens⟩ := (encloses_finding hread).opens inside trivial trivial
        cases level task first rfl _ opens
      cases m with
      | sync => exact (reads (encloses_readSync hr) h).elim
      | async => exact (reads (encloses_readAsync hr) h).elim
  | register policy producer =>
      refine ⟨policy, producer, rfl, ?_⟩
      cases m with
      | sync =>
          simp only [EntryPoint.program, getOrRegister] at h
          cases hp : policy.isAsync with
          | true => simp [hp, traces_pure] at h
          | false =>
              rw [hp] at h
              refine traces_guarded_founds (fun slot => woven_registerSync hr policy producer)
                (fun slot => founds_registerSync hr producer) (encloses_readSync hr) ?_ h level
                fresh
              rintro slot e ⟨deferred, rfl⟩
              exact ⟨rfl, only_registerSync deferred producer, rfl⟩
      | async =>
          simp only [EntryPoint.program, getOrRegisterAsync] at h
          cases hp : policy.isAsync with
          | false => simp [hp, traces_pure] at h
          | true =>
              rw [hp] at h
              refine traces_guarded_founds (fun slot => woven_registerAsync hr policy producer)
                (fun slot => founds_registerAsync hr producer) (encloses_readAsync hr) ?_ h level
                fresh
              rintro slot e ⟨deferred, rfl⟩
              exact ⟨rfl, only_registerAsync deferred producer, rfl⟩

end Founding

end Program

/-- The steps hold one run for the key of `e`, which is one of the producer. What its script does in
between may run producers for other keys. -/
def RunsOnce (c : ClientId) {m : Mode} (producer : Producer m) (carry : Script m → Program Outcome)
    (e : Entry) (own : List Performed) (r : Resolved) : Prop :=
  ∃ first run inner outcome last,
    own = first ++ ⟨c, .beginRun e.slot e.key producer.id, run⟩ :: (inner ++
      ⟨c, .endRun e.slot e.key producer.id run outcome, r⟩ :: last) ∧
    (∀ y ∈ first ++ last, ¬y.action.IsRun) ∧ (∀ y ∈ inner, y.action.work? ≠ some e.key) ∧
      (carry (producer.script run)).Traces c inner outcome

section Calls

open Program

variable {setting : Setting} {runner : Runner} {runtime : Runtime} {key : Key} {c : ClientId}
  {own : List Performed} {e : Entry} {r : Resolved}

theorem not_isRun_tellings {observers : Nat} {notice : Notice} {y : Performed}
    (hy : y ∈ tellings c observers notice) : ¬y.action.IsRun := by
  obtain ⟨i, -, rfl⟩ := List.mem_map.1 hy
  exact id

theorem Program.FoundsBy.runsOnce {m : Mode} {offer : Option ProducerId} {producer : Producer m}
    (founds : FoundsBy setting runner runtime key offer producer c e own r) (hr : runner.Encloses)
    (hk : e.key = key) (honest : ∀ x ∈ own, x.Honest)
    (outermost : ∀ (task : List String) (first after : List Performed) (y : Performed)
      (stack : List (Key × Option ProducerId)),
      own = ⟨c, .enter m key offer, .ok task⟩ :: first ++ y :: after →
        y.action.work? = some key → Opens c first stack → stack = []) :
    RunsOnce c producer (runner runtime) e own r := by
  subst hk
  obtain ⟨-, task, first, ran, r', eq, opens, idle, running, checks⟩ := founds
  obtain ⟨run, inner, outcome, notice, carried, rfl⟩ := traces_runProducer running
  have same : r' = r := by
    rw [checks]
    cases r' with
    | error error => rfl
    | ok inst =>
        have own_key : inst.key = e.key :=
          honest ⟨c, .endRun e.slot e.key producer.id run outcome, .ok inst⟩ (by simp [eq])
        simp [checked, own_key]
  subst same
  refine ⟨⟨c, .enter m e.key offer, .ok task⟩ ::
      (first ++ tellings c setting.observers (.producing e.key)), run, inner, outcome,
    tellings c setting.observers notice ++ [⟨c, .leave m e.key task r', ()⟩], ?_, ?_, ?_, carried⟩
  · rw [eq]
    simp
  · intro y hy
    simp only [List.mem_append, List.mem_cons, List.not_mem_nil, or_false] at hy
    obtain (rfl | hy | hy) | hy | rfl := hy
    · exact id
    · exact idle y hy
    · exact not_isRun_tellings hy
    · exact not_isRun_tellings hy
    · exact id
  · intro y hy works
    obtain ⟨b, a, rfl⟩ := List.append_of_mem hy
    obtain ⟨call, stack, within⟩ := (hr runtime (producer.script run)).opens carried
      (Action.IsInner.of_work? works) (Option.isSome_of_eq_some works)
    have begun : Opens c [⟨c, .beginRun e.slot e.key producer.id, run⟩] [] :=
      .inner (a := .beginRun e.slot e.key producer.id) trivial
    have told := opens_tellings (c := c) setting.observers (.producing e.key)
    have under := opens.append (told.append (begun.append within))
    have split : own = ⟨c, .enter m e.key offer, .ok task⟩ ::
        (first ++ (tellings c setting.observers (.producing e.key) ++
          ([⟨c, .beginRun e.slot e.key producer.id, run⟩] ++ b))) ++
        y :: (a ++ ⟨c, .endRun e.slot e.key producer.id run outcome, r'⟩ ::
          (tellings c setting.observers notice ++ [⟨c, .leave m e.key task r', ()⟩])) := by
      rw [eq]
      simp
    cases outermost task _ _ y _ split works under

end Calls

section Machines

open Program

variable {setting : Setting} {jobs : List (List Demand)} {m m' : Machine} {key : Key} {c : ClientId}
  {own : List Performed} {e : Entry} {r : Resolved}

/-- Whatever call publishes a factory of its key is a registering one, which was handed the producer
of the factory and runs it once. -/
theorem Machine.CarriesOut.runsOnce (reach : (Machine.start setting jobs).Reaches m)
    {κ : Resolved → Program (List Reply)} {level : Nat} {runtime : Runtime} {mode : Mode}
    (x : EntryPoint mode)
    (carried : CarriesOut c κ m (x.program setting (runScript setting level) runtime key) own r m')
    {slot : SlotId} {found : Entry} (there : ⟨c, .publish slot e, found⟩ ∈ own) (hk : e.key = key)
    (fresh : e.policy.isShared = false) :
    ∃ policy producer, x = .register policy producer ∧
      e.resolution.maker? = some ⟨mode, producer⟩ ∧
        RunsOnce c producer (runScript setting level runtime) e own r := by
  have honest := carried.honest reach
  obtain rfl : e = found := (honest _ there).symm
  have hr : (runScript setting level).Encloses := encloses_runScript level
  have outermost (task : List String) (first after : List Performed) (y : Performed)
      (stack : List (Key × Option ProducerId))
      (split : own = ⟨c, .enter mode key x.offer, .ok task⟩ :: first ++ y :: after)
      (works : y.action.work? = some key) (opens : Opens c first stack) : stack = [] :=
    carried.level reach split opens works
  obtain ⟨before, after, split⟩ := List.append_of_mem there
  have traces := carried.traces
  rw [split] at traces
  obtain ⟨policy, producer, rfl, founds⟩ := traces_entryPoint_founds hr x traces
    (fun task first eq stack => outermost task first after ⟨c, .publish slot e, e⟩ stack
      (by rw [split, eq]) (congrArg some hk)) fresh
  rw [← split] at founds
  exact ⟨policy, producer, rfl, founds.1, founds.runsOnce hr hk honest outermost⟩

/-- A factory has its producer, and no place for an instance. -/
theorem Entry.Sound.fresh (sound : e.Sound) (fresh : e.policy.isShared = false) :
    (e.resolution.isLazy = false ∧ e.resolution.instance? = none) ∧
      ∃ p, e.resolution.producer? = some p := by
  have policy := sound.policy
  cases hr : e.resolution with
  | factory p | factoryAsync p => exact ⟨⟨rfl, rfl⟩, p.id, rfl⟩
  | _ =>
      rw [hr] at policy
      rw [← policy] at fresh
      cases fresh

/-- What is so of the entry of a key that is a factory, in a run without reset, whatever its
producer returns. -/
structure Machine.MakesAfresh (setting : Setting) (jobs : List (List Demand)) (m : Machine)
    (key : Key) (e : Entry) (p : ProducerId) : Prop where
  /-- The entry is the only one that was published, with a producer that was handed to a call. -/
  first : m.history.published key = [e] ∧ e.resolution.producer? = some p ∧ m.history.Hands key p
  /-- A call that comes back with an instance has ended one run, which has made it. -/
  made : ∀ {c : ClientId} {mode : Mode} {before : List String} {inst : Instance} {h : History},
    ⟨c, .leave mode key before (.ok inst), ()⟩ :: h <:+ m.history →
      ∃ own, (h.deeds c).head? = some own ∧ runs own = [(p, .ok inst)]
  /-- No two calls come back with one instance. -/
  apart : (m.history.returned key).Pairwise fun i j => i.serial ≠ j.serial
  /-- When all clients have finished, the instances that runs have made have been returned. -/
  returned : (∀ client ∈ m.clients, client.Finished) →
    (m.history.returned key).Perm (m.history.made key) ∧
      (m.history.returned key).length = (m.history.made key).length
  /-- The call that registers the entry was handed its producer, and has run it once. -/
  registering : ∀ {m₀ m₁ : Machine} {c : ClientId} {κ : Resolved → Program (List Reply)}
    {level : Nat} {runtime : Runtime} {mode : Mode} (x : EntryPoint mode) {own : List Performed}
    {r : Resolved} {slot : SlotId} {e' found : Entry},
    (Machine.start setting jobs).Reaches m₀ → CarriesOut c κ m₀
      (x.program setting (runScript setting level) runtime key) own r m₁ → m₁.Reaches m →
        ⟨c, .publish slot e', found⟩ ∈ own → e'.key = key → e' = e ∧
          ∃ policy producer, x = .register policy producer ∧ producer.id = p ∧
            RunsOnce c producer (runScript setting level runtime) e own r
  /-- From now on the entry stays as it is, and nothing is kept for its key. -/
  unchanged : ∀ {m' : Machine}, m.Reaches m' → m'.history.Calm →
    m'.store.entryOf? key = some e ∧ m'.store.stateOf key = m.store.stateOf key ∧
      m'.store.kept? key = none

/-- What a factory makes is made for one call each, and not kept. -/
theorem factories_make_afresh (reach : (Machine.start setting jobs).Reaches m)
    (calm : m.history.Calm) (entry : m.store.entryOf? key = some e)
    (fresh : e.policy.isShared = false) : ∃ p, m.MakesAfresh setting jobs key e p := by
  obtain ⟨keys, calls, conducted, -⟩ := reach.conducted (J := fun _ _ _ _ => True) trivial
    fun _ _ => trivial
  obtain ⟨suits, there⟩ := Recorded.suits conducted.tenure entry
  obtain ⟨keepless, p, hp⟩ := suits.sound.fresh fresh
  have renews : m.store.Renews key := fun e' he' => by
    cases entry.symm.trans he'
    exact keepless
  have once : m.history.published key = [e] := by
    rw [reach.published calm, entry]
    rfl
  obtain ⟨apart, returned⟩ := reach.returned_apart calm renews
  refine ⟨p, ⟨once, hp, ?_⟩, ?_, apart, ?_, ?_, ?_⟩
  · rw [← suits.key]
    exact reach.entry_handed there (.inl hp)
  · intro c mode before inst h left
    obtain ⟨own, q, ho, hq, ran⟩ := reach.renewed calm entry renews left
    cases hp.symm.trans hq
    exact ⟨own, ho, ran⟩
  · exact fun finished => ⟨returned finished, (returned finished).length_eq⟩
  · intro m₀ m₁ c κ level runtime mode x own r slot e' found reach₀ carried later published hk
    have seen : e' ∈ m.history.published key :=
      hk ▸ mem_published (later.suffix.subset (carried.mem_history published))
    rw [once, List.mem_singleton] at seen
    subst seen
    obtain ⟨policy, producer, rfl, maker, ran⟩ := carried.runsOnce reach₀ x published hk fresh
    refine ⟨rfl, policy, producer, rfl, ?_, ran⟩
    rw [Resolution.producer?, maker] at hp
    exact Option.some.inj hp
  · exact fun later calm' => reach.unchanged entry renews later calm'

end Machines

def ticketKey : Key := ⟨"app::Ticket", "Ticket"⟩

def ticketSetting : Setting := ⟨1, fun _ => ⟨.factory, fun _ _ => .finish (.ok ⟨none, []⟩)⟩⟩

def ticketJobs : List (List Demand) :=
  [[⟨.inl (.resolve ticketKey), .plain⟩], [⟨.inl (.resolve ticketKey), .plain⟩]]

theorem two_clients_draw_two_tickets :
    ∃ m e p, (Machine.start ticketSetting ticketJobs).Reaches m ∧ m.history.Calm ∧
      m.store.entryOf? ticketKey = some e ∧ e.policy.isShared = false ∧
      (∀ client ∈ m.clients, client.Finished) ∧ (m.history.returned ticketKey).length = 2 ∧
      m.MakesAfresh ticketSetting ticketJobs ticketKey e p := by
  obtain ⟨m, reach, calm, fresh, finished, twice⟩ := Machine.exists_of_follow
    (m := Machine.start ticketSetting ticketJobs)
    (List.replicate 3 0 ++ List.replicate 13 1 ++ List.replicate 8 0)
    (P := fun m => m.history.Calm ∧
      (m.store.entryOf? ticketKey).any (fun e => e.policy.isShared = false) ∧
        (∀ client ∈ m.clients, client.Finished) ∧ (m.history.returned ticketKey).length = 2)
    (by decide +kernel)
  obtain ⟨e, published, fresh⟩ := (Option.any_eq_true _ _).1 fresh
  have fresh := of_decide_eq_true fresh
  obtain ⟨p, afresh⟩ := factories_make_afresh reach calm published fresh
  exact ⟨m, e, p, reach, calm, published, fresh, finished, twice, afresh⟩

end Wiring.Registry
