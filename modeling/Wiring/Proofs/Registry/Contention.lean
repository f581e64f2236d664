import Wiring.Proofs.Registry.RefusalToWait
import Wiring.Proofs.Registry.Refusal

/-!
What calls are refused to wait for. A plain call that is itself refused has come upon an entry that
is awaited and not made yet, or upon a gate that another client holds for the same key. The gate
does not tell who holds it, so on a thread that drives a runtime alone a call is refused for a plain
registration as well, which it would wait out on any other thread.
-/
namespace Wiring.Registry

/-- What looks have shown: under which key a slot was looked up, and what entry was found in it. -/
structure Sighted (keys : List Key) (_ : ClientId → List Call) (s : Store) (h : History) :
    Prop where
  claimed : ∀ {c key slot}, (⟨c, .claimSlot key, slot⟩ : Performed) ∈ h → keys[slot]? = some key
  found : ∀ {c key e}, (⟨c, .findEntry key, some e⟩ : Performed) ∈ h →
    keys[e.slot]? = some key ∧ (s.slot e.slot).entry = some e
  read : ∀ {c slot e}, (⟨c, .readEntry slot, some e⟩ : Performed) ∈ h →
    e.slot = slot ∧ (s.slot slot).entry = some e

theorem sighted_start : Sighted [] (fun _ => []) .empty [] where
  claimed := by simp
  found := by simp
  read := by simp

theorem sighted_kept (terms : Terms) : Kept terms Sighted := by
  intro keys calls s c a r calls' keys' s' h taken old
  have hp := taken.performs
  have key_kept {slot : SlotId} {key : Key} (hk : keys[slot]? = some key) :
      keys'[slot]? = some key := by
    obtain ⟨more, rfl⟩ := taken.grown
    rw [List.getElem?_append_left (List.getElem?_eq_some_iff.1 hk).1, hk]
  have entry_kept {slot : SlotId} {e : Entry} (he : (s.slot slot).entry = some e) :
      (s'.slot slot).entry = some e := Action.entry_kept hp he
  refine ⟨fun there => ?_, fun there => ?_, fun there => ?_⟩
  · cases List.mem_cons.1 there with
    | inl now =>
        cases now
        simp only [Action.perform, Option.some.injEq, Prod.mk.injEq] at hp
        obtain ⟨rfl, -, rfl⟩ := hp
        exact taken.after.index _ _ Store.slotOf?_claim_found
    | inr before => exact key_kept (old.claimed before)
  · cases List.mem_cons.1 there with
    | inl now =>
        cases now
        simp only [Action.perform, Option.some.injEq, Prod.mk.injEq] at hp
        obtain ⟨he, -, rfl⟩ := hp
        obtain ⟨id, hk, he⟩ := Option.bind_eq_some_iff.1 he
        have there := taken.before.index _ _ hk
        obtain rfl := (taken.before.suits there he).slot
        exact ⟨key_kept there, he⟩
    | inr before => exact ⟨key_kept (old.found before).1, entry_kept (old.found before).2⟩
  · cases List.mem_cons.1 there with
    | inl now =>
        cases now
        simp only [Action.perform, Option.some.injEq, Prod.mk.injEq] at hp
        obtain ⟨he, -, rfl⟩ := hp
        obtain ⟨key, -, suits⟩ := taken.before.entry _ _ he
        exact ⟨suits.slot, he⟩
    | inr before => exact ⟨(old.read before).1, entry_kept (old.read before).2⟩

/-- What a call of client `c` for `key` comes upon where it would have to wait: the work of others
for the key, which is awaited or plain. -/
inductive Machine.Busy (m : Machine) (c : ClientId) (key : Key) : Mode → Prop
  /-- An entry of the key that is awaited and has no instance. -/
  | unmade {e : Entry} (there : (m.store.slot e.slot).entry = some e) (own : e.key = key)
      (awaited : e.policy.mode = .async) (unfilled : e.resolution.instance? = none)
      (empty : (m.store.slot e.slot).cell.instance? = none) : m.Busy c key .async
  /-- Another client has a registering call for the key under way, and with it the gate of the
  slot that the call has looked up. -/
  | registering {slot : SlotId} {c' : ClientId} {mode : Mode}
      (claimed : (⟨c, .claimSlot key, slot⟩ : Performed) ∈ m.history)
      (held : (m.store.slot slot).gate = some c') (other : c' ≠ c)
      (under : (key, mode) ∈ m.history.nesting c') : m.Busy c key mode

section Moments

variable {setting : Setting} {jobs : List (List Demand)} {m m' : Machine} {c : ClientId} {key : Key}
  {e : Entry}

theorem Machine.Reaches.sighted (reach : (Machine.start setting jobs).Reaches m) :
    ∃ keys calls, Tenure (.plain setting.observers none) keys calls m.store ∧
      Sighted keys calls m.store m.history := by
  obtain ⟨keys, calls, conducted, sighted⟩ := reach.conducted sighted_start (sighted_kept _)
  exact ⟨keys, calls, conducted.tenure, sighted⟩

/-- The entry that a call has come upon is one of its key, and stays where it was found. -/
theorem Machine.Reaches.comesUpon (reach : (Machine.start setting jobs).Reaches m)
    {looks : List Performed} (comes : ComesUpon c key e looks) (seen : ∀ x ∈ looks, x ∈ m.history) :
    (m.store.slot e.slot).entry = some e ∧ e.key = key ∧ e.Sound := by
  obtain ⟨keys, calls, tenure, sighted⟩ := reach.sighted
  have suits {slot : SlotId} (hk : keys[slot]? = some key)
      (he : (m.store.slot slot).entry = some e) : e.key = key ∧ e.Sound :=
    ⟨(tenure.suits hk he).key, (tenure.suits hk he).sound⟩
  cases comes with
  | found =>
      obtain ⟨hk, he⟩ := sighted.found (seen _ List.mem_cons_self)
      exact ⟨he, suits hk he⟩
  | @there slot =>
      obtain ⟨rfl, he⟩ := sighted.read (seen ⟨c, .readEntry slot, some e⟩ (by simp))
      exact ⟨he, suits (sighted.claimed (seen _ List.mem_cons_self)) he⟩
  | @passed slot =>
      obtain ⟨rfl, he⟩ := sighted.read (seen ⟨c, .readEntry slot, some e⟩ (by simp))
      exact ⟨he, suits (sighted.claimed (seen _ List.mem_cons_self)) he⟩

/-- Where a call finds a gate held, another client registers the same key. -/
theorem Machine.Reaches.registering (reach : (Machine.start setting jobs).Reaches m)
    {slot : SlotId} (hs : m.step c = some m')
    (tried : m'.history = ⟨c, .tryGate slot, false⟩ :: m.history)
    (claimed : (⟨c, .claimSlot key, slot⟩ : Performed) ∈ m.history) :
    ∃ mode, m.Busy c key mode := by
  obtain ⟨keys, calls, conducted, sighted, nests⟩ := reach.conducted
    (J := fun keys calls s h => Sighted keys calls s h ∧ Nests keys calls s h)
    ⟨sighted_start, fun _ => rfl⟩ (Kept.and (sighted_kept _) (nests_kept _))
  obtain ⟨a, r, calls', keys', taken, history, -⟩ := conducted.step rfl hs (told_plain _)
  cases history.symm.trans tried
  have tenure := conducted.tenure
  have hk := sighted.claimed claimed
  have hp := taken.performs
  simp only [Action.perform] at hp
  cases held : (m.store.slot slot).gate with
  | none => simp [held] at hp
  | some c' =>
      obtain ⟨call, there, gate⟩ := (tenure.gate slot c').1 held
      have same := tenure.slot c' call there slot (Stage.slot?_of_gate? gate)
      cases hk.symm.trans same
      refine ⟨call.mode, .registering claimed held ?_ ?_⟩
      · rintro rfl
        obtain ⟨top, rest, stage, hcs, -, step⟩ := taken.own rfl
        obtain ⟨key, mode, offer, before⟩ := top
        cases step with
        | gateHeld =>
            rw [hcs] at there
            cases List.mem_cons.1 there with
            | inl now =>
                cases now
                cases gate
            | inr nested =>
                have here := tenure.slot c' _ (hcs ▸ List.mem_cons_self) slot rfl
                exact tenure.slot_ne_of_mem_rest hcs here nested (Stage.slot?_of_gate? gate)
      · rw [nests]
        exact List.mem_map_of_mem there

/-- An entry that is awaited and was not made as it was registered is one to wait for, as long as
its cell has no instance. -/
theorem Entry.busy (sound : e.Sound) (there : (m.store.slot e.slot).entry = some e)
    (own : e.key = key) {p : Producer .async} (hm : e.resolution.maker? = some ⟨.async, p⟩)
    (empty : (m.store.slot e.slot).cell.instance? = none) : m.Busy c key .async := by
  have policy := sound.policy
  cases hr : e.resolution with
  | factoryAsync | lazySingletonAsync =>
      rw [hr] at policy
      exact .unmade there own (policy ▸ rfl) (by rw [hr]; rfl) empty
  | _ =>
      rw [hr] at hm
      cases hm

theorem Machine.Reaches.declined_busy (reach : (Machine.start setting jobs).Reaches m)
    {α : Type} {κ : α → Program (List Reply)} {p : Program α} {looks : List Performed} {a : α}
    {first last : Performed} (declined : Declined c key looks)
    (carried : Machine.CarriesOut c κ m p (first :: (looks ++ [last])) a m') :
    ∃ m₁ m₂ x mode, m.Reaches m₁ ∧ m₁.step c = some m₂ ∧ m₂.history = x :: m₁.history ∧
      x ∈ first :: (looks ++ [last]) ∧ m₂.Reaches m' ∧ m₁.Busy c key mode := by
  cases declined with
  | @awaited e looks reads comes waits =>
      cases waits with
      | fresh hr =>
          obtain ⟨m₁, m₂, reach₁, hs, history, earlier, later⟩ :=
            carried.moment (show _ = (first :: looks) ++ last :: [] by simp)
          obtain ⟨there, own, sound⟩ := (reach.trans reach₁).comesUpon comes fun x hx =>
            earlier x (List.mem_cons_of_mem _ hx)
          refine ⟨m₁, m₂, last, .async, reach₁, hs, history, by simp, later, ?_⟩
          refine Entry.busy sound there own (by rw [hr]; rfl) ?_
          obtain ⟨keys, calls, tenure, -⟩ := (reach.trans reach₁).sighted
          cases hc : (m₁.store.slot e.slot).cell with
          | empty | filling => rfl
          | full inst =>
              obtain ⟨e', there', lazy, -⟩ := tenure.full e.slot inst hc
              cases there.symm.trans there'
              rw [hr] at lazy
              cases lazy
      | pending hr =>
          obtain ⟨m₁, m₂, reach₁, hs, history, earlier, later⟩ :=
            carried.moment
              (show _ = (first :: looks) ++ ⟨c, .readCell e.slot, none⟩ :: [last] by simp)
          obtain ⟨there, own, sound⟩ := (reach.trans reach₁).comesUpon comes fun x hx =>
            earlier x (List.mem_cons_of_mem _ hx)
          refine ⟨m₁, m₂, _, .async, reach₁, hs, history, by simp, later, ?_⟩
          refine Entry.busy sound there own (by rw [hr]; rfl) ?_
          obtain ⟨_, _, a, r, _, _, history', taken⟩ := (reach.trans reach₁).performs hs
          cases history.symm.trans history'
          have hp := taken.performs
          simp only [Action.perform] at hp
          cases hc : (m₁.store.slot e.slot).cell with
          | empty | filling => rfl
          | full inst => simp [hc] at hp
  | @held slot =>
      obtain ⟨m₁, m₂, reach₁, hs, history, earlier, later⟩ :=
        carried.moment (show _ = [first, ⟨c, .claimSlot key, slot⟩, ⟨c, .readEntry slot, none⟩] ++
          ⟨c, .tryGate slot, false⟩ :: [last] by simp)
      obtain ⟨mode, busy⟩ :=
        (reach.trans reach₁).registering hs history (earlier ⟨c, .claimSlot key, slot⟩ (by simp))
      exact ⟨m₁, m₂, _, mode, reach₁, hs, history, by simp, later, busy⟩

end Moments

/-- What a registering call of client `c` does up to a gate that it finds held. -/
def gateHeld (c : ClientId) (key : Key) (producer : ProducerId) (task : List String)
    (slot : SlotId) : List Performed :=
  [⟨c, .enter .sync key (some producer), .ok task⟩, ⟨c, .claimSlot key, slot⟩,
    ⟨c, .readEntry slot, none⟩, ⟨c, .tryGate slot, false⟩]

namespace Program

variable {setting : Setting} {runner : Runner} {runtime : Runtime} {key : Key} {policy : Policy}
  {producer : Producer .sync} {c : ClientId} {slot : SlotId} {task : List String}
  {rest : List Performed} {r : Resolved}

theorem traces_registering_held {read : Entry → Program Resolved} {inner last : List Performed}
    (h : (registering key
        (fun slot => registerSync setting runner runtime slot key policy producer) read).Traces c
      inner r)
    (eq : (⟨c, .claimSlot key, slot⟩ : Performed) :: ⟨c, .readEntry slot, none⟩ ::
      ⟨c, .tryGate slot, false⟩ :: rest = inner ++ last) :
    runtime = .currentThread ∧ r = .error (.blockingInAsyncContext key.name) ∧ rest = last ∨
      runtime ≠ .currentThread ∧ ∃ more, rest = ⟨c, .takeGate slot, ()⟩ :: more := by
  obtain ⟨_, _, rfl, claimed⟩ := traces_perform.1 h
  obtain ⟨_, _, rfl, missed⟩ := traces_perform.1 claimed
  cases (List.cons.inj eq).1
  cases (List.cons.inj (List.cons.inj eq).2).1
  obtain ⟨_, registered, _, rfl, hr, hread⟩ := traces_bind.1 missed
  obtain ⟨_, free, _, rfl, ht, hrest⟩ := traces_bind.1 hr
  obtain ⟨rfl, -⟩ | ⟨rfl, rfl, driven⟩ | ⟨rfl, -, undriven⟩ := traces_takeGateSync ht
  · cases eq
  · obtain ⟨rfl, rfl⟩ := hrest
    obtain ⟨rfl, rfl⟩ := hread
    exact .inl ⟨driven, rfl, by simpa using eq⟩
  · simp only [List.cons_append, List.cons.injEq, true_and] at eq
    exact .inr ⟨undriven, _, eq⟩

/-- What a registering call goes on with where it has found the gate held. -/
theorem traces_gateHeld
    (h : (getOrRegister setting runner runtime key policy producer).Traces c
      (gateHeld c key producer.id task slot ++ rest) r) :
    runtime = .currentThread ∧ r = .error (.blockingInAsyncContext key.name) ∧
        rest = [⟨c, .leave .sync key task r, ()⟩] ∨
      runtime ≠ .currentThread ∧ ∃ more, rest = ⟨c, .takeGate slot, ()⟩ :: more := by
  unfold getOrRegister at h
  cases hp : policy.isAsync with
  | true =>
      rw [hp] at h
      cases h.1
  | false =>
      rw [hp] at h
      obtain ⟨e, eq, -⟩ | ⟨task', inner, hb, eq⟩ := traces_guarded.1 h
      · cases eq
      · simp only [gateHeld, List.cons_append, List.nil_append, List.cons.injEq,
          Performed.mk.injEq, heq_eq_eq, Except.ok.injEq, true_and] at eq
        obtain ⟨rfl, eq⟩ := eq
        exact traces_registering_held hb eq

end Program

/-- What plain calls are refused to wait for, from a machine on. -/
structure Machine.RefusesWhereBusy (setting : Setting) (m : Machine) : Prop where
  /-- A call that is itself refused to wait is made on a thread that drives a runtime alone, and at
  one of its steps it has come upon the work of others for its key. -/
  busy : ∀ {c : ClientId} {κ : Resolved → Program (List Reply)} {level : Nat} {runtime : Runtime}
    {key : Key} (x : EntryPoint .sync) {own : List Performed} {r : Resolved} {m' : Machine},
    CarriesOut c κ m (x.program setting (runScript setting level) runtime key) own r m' →
      Refused own key r → runtime = .currentThread ∧ ∃ m₁ m₂ p mode, m.Reaches m₁ ∧
        m₁.step c = some m₂ ∧ m₂.history = p :: m₁.history ∧ p ∈ own ∧ m₂.Reaches m' ∧
          m₁.Busy c key mode
  /-- Whoever holds the gate that it finds held, a call is refused on such a thread, and on every
  other it waits. -/
  held : ∀ {c : ClientId} {κ : Resolved → Program (List Reply)} {level : Nat} {runtime : Runtime}
    {key : Key} {policy : Policy} {producer : Producer .sync} {slot : SlotId} {task : List String}
    {rest : List Performed} {r : Resolved} {m' : Machine},
    CarriesOut c κ m
      ((EntryPoint.register policy producer).program setting (runScript setting level) runtime key)
      (gateHeld c key producer.id task slot ++ rest) r m' →
      (Refused (gateHeld c key producer.id task slot ++ rest) key r ↔ runtime = .currentThread) ∧
        (runtime ≠ .currentThread → ∃ more, rest = ⟨c, .takeGate slot, ()⟩ :: more)

/-- Calls are refused to wait on threads that drive a runtime alone, where they come upon work for
their key; and a registration that holds the gate is such work, whether it is awaited or plain. -/
theorem refusals_meet_work {setting : Setting} {jobs : List (List Demand)} {m : Machine}
    (reach : (Machine.start setting jobs).Reaches m) : m.RefusesWhereBusy setting := by
  have busy {c : ClientId} {κ : Resolved → Program (List Reply)} {level : Nat} {runtime : Runtime}
      {key : Key} (x : EntryPoint .sync) {own : List Performed} {r : Resolved} {m' : Machine}
      (carried : Machine.CarriesOut c κ m (x.program setting (runScript setting level) runtime key)
        own r m') (refused : Refused own key r) :
      runtime = .currentThread ∧ ∃ m₁ m₂ p mode, m.Reaches m₁ ∧ m₁.step c = some m₂ ∧
        m₂.history = p :: m₁.history ∧ p ∈ own ∧ m₂.Reaches m' ∧ m₁.Busy c key mode := by
    obtain ⟨driven, task, looks, declined, rfl⟩ :=
      declined_entryPoint x carried.traces refused (carried.honest reach)
    exact ⟨driven, reach.declined_busy declined carried⟩
  refine ⟨busy, fun {c κ level runtime key policy producer slot task rest r m'} carried => ?_⟩
  obtain ⟨driven, rfl, rfl⟩ | ⟨undriven, waits⟩ := Program.traces_gateHeld carried.traces
  · refine ⟨iff_of_true ⟨rfl, ?_⟩ driven, fun undriven => absurd driven undriven⟩
    rintro ⟨x, hx, failure⟩
    simp only [gateHeld, List.cons_append, List.nil_append, List.mem_cons, List.not_mem_nil,
      or_false] at hx
    obtain rfl | rfl | rfl | rfl | rfl := hx <;> cases failure
  · have unrefused (refused : Refused (gateHeld c key producer.id task slot ++ rest) key r) :
        False :=
      undriven (busy (.register policy producer) carried refused).1
    exact ⟨iff_of_false unrefused undriven, fun _ => waits⟩

/-- Neither an awaited call nor the publication of an awaited entry. -/
def Action.IsPlain : Action → Prop
  | enter .async .. => False
  | publish _ e => e.policy.mode = .sync
  | _ => True

instance : (a : Action) → Decidable a.IsPlain
  | .enter .async .. => isFalse id
  | .publish _ e => inferInstanceAs (Decidable (e.policy.mode = .sync))
  | .enter .sync .. | .leave .. | .claimSlot _ | .findEntry _ | .countEntries | .clearEntries
  | .readEntry _ | .tryGate _ | .takeGate _ | .freeGate _ | .readCell _ | .claimCell _
  | .fillCell .. | .freeCell _ | .newProducer | .beginRun .. | .endRun .. | .observe .. | .note _
  | .pause | .yield => isTrue trivial

theorem History.exists_enter_of_nesting {h : History} {me : ClientId} {key : Key} {mode : Mode}
    (under : (key, mode) ∈ History.nesting me h) :
    ∃ offer task, (⟨me, .enter mode key offer, .ok task⟩ : Performed) ∈ h := by
  induction h with
  | nil => cases under
  | cons p h ih =>
      have earlier (there : (key, mode) ∈ History.nesting me h) :
          ∃ offer task, (⟨me, .enter mode key offer, .ok task⟩ : Performed) ∈ p :: h := by
        obtain ⟨offer, task, there⟩ := ih there
        exact ⟨offer, task, List.mem_cons_of_mem _ there⟩
      obtain ⟨c, a, r⟩ := p
      cases a with
      | enter mode' key' offer =>
          cases r with
          | error e => exact earlier under
          | ok task =>
              simp only [nesting] at under
              split at under
              · next same =>
                  subst same
                  cases List.mem_cons.1 under with
                  | inl now =>
                      cases now
                      exact ⟨offer, task, List.mem_cons_self⟩
                  | inr there => exact earlier there
              · exact earlier under
      | leave =>
          simp only [nesting] at under
          split at under
          · exact earlier (List.mem_of_mem_tail under)
          · exact earlier under
      | _ => exact earlier under

/-- Where nothing has been awaited, there is no awaited work to come upon. -/
theorem Machine.Reaches.not_busy {setting : Setting} {jobs : List (List Demand)} {m : Machine}
    (reach : (Machine.start setting jobs).Reaches m)
    (plain : ∀ x ∈ m.history, x.action.IsPlain) {c : ClientId} {key : Key} :
    ¬m.Busy c key .async := by
  intro busy
  cases busy with
  | unmade there _ awaited =>
      obtain ⟨keys, calls, -, traced⟩ := reach.traced
      obtain ⟨c', r, h, published⟩ := traced.published _ _ there
      have mode := plain _ (published.subset List.mem_cons_self)
      cases awaited.symm.trans mode
  | registering _ _ _ under =>
      obtain ⟨offer, task, entered⟩ := History.exists_enter_of_nesting under
      exact plain _ entered

def configKey : Key := ⟨"app::Config", "Config"⟩

def configSetting : Setting :=
  ⟨0, fun _ => ⟨.singleton, fun _ _ => .finish (.ok ⟨none, []⟩)⟩⟩

def configJobs : List (List Demand) :=
  [[⟨.inl (.resolve configKey), .plain⟩], [⟨.inl (.resolve configKey), .current⟩]]

def configCall : EntryPoint .sync :=
  .register .singleton ⟨.accessor configKey, fun _ => .finish (.ok ⟨none, []⟩)⟩

theorem config_in_the_making :
    ∃ m m' own r, (Machine.start configSetting configJobs).Reaches m ∧
      Machine.CarriesOut 1 (fun r => .done [.resolved r]) m
        (configCall.program configSetting (runScript configSetting maxDepth) .currentThread
          configKey) own r m' ∧
      Refused own configKey r ∧ ∀ x ∈ m'.history, x.action.IsPlain := by
  have found : ((Machine.start configSetting configJobs).follow (List.replicate 6 0)).any
      fun m => ((configCall.program configSetting (runScript configSetting maxDepth) .currentThread
        configKey).run 1 ⟨.empty, m.store, m.history⟩).any fun x =>
          Refused x.2.history configKey x.1 ∧ ∀ p ∈ x.2.history, p.action.IsPlain := by
    decide +kernel
  obtain ⟨m, followed, found⟩ := (Option.any_eq_true _ _).1 found
  obtain ⟨⟨r, w⟩, ran, found⟩ := (Option.any_eq_true _ _).1 found
  obtain ⟨⟨error, itself⟩, plain⟩ := of_decide_eq_true found
  obtain ⟨-, own, m', carried, history, -⟩ :=
    Machine.exists_carriesOut_first (d := ⟨.inl (.resolve configKey), .current⟩) rfl rfl followed
      (by decide) ran
  have refused : Refused own configKey r :=
    ⟨error, fun fails => itself (fails.mono fun x hx => history ▸ carried.mem_history hx)⟩
  exact ⟨m, m', own, r, Machine.reaches_of_follow followed, carried, refused, history ▸ plain⟩

/-- The second client is refused as if it had to wait for awaited work, and there is none. -/
theorem config_is_refused_for_plain_work :
    ∃ m m' own r, (Machine.start configSetting configJobs).Reaches m ∧
      Machine.CarriesOut 1 (fun r => .done [.resolved r]) m
        (configCall.program configSetting (runScript configSetting maxDepth) .currentThread
          configKey) own r m' ∧
      Refused own configKey r ∧
        ∀ m₁, m.Reaches m₁ → m₁.Reaches m' → ¬m₁.Busy 1 configKey .async := by
  obtain ⟨m, m', own, r, reach, carried, refused, plain⟩ := config_in_the_making
  refine ⟨m, m', own, r, reach, carried, refused, fun m₁ reach₁ later => ?_⟩
  exact (reach.trans reach₁).not_busy fun x hx => plain x (later.suffix.subset hx)

theorem config_is_refused_while_registered :
    ∃ m m' own r, (Machine.start configSetting configJobs).Reaches m ∧
      Machine.CarriesOut 1 (fun r => .done [.resolved r]) m
        (configCall.program configSetting (runScript configSetting maxDepth) .currentThread
          configKey) own r m' ∧
      Refused own configKey r ∧ ∃ m₁, m.Reaches m₁ ∧ m₁.Busy 1 configKey .sync := by
  obtain ⟨m, m', own, r, reach, carried, refused, plain⟩ := config_in_the_making
  refine ⟨m, m', own, r, reach, carried, refused, ?_⟩
  obtain ⟨-, m₁, m₂, p, mode, reach₁, hs, -, -, later, busy⟩ :=
    (refusals_meet_work reach).busy configCall carried refused
  refine ⟨m₁, reach₁, ?_⟩
  cases mode with
  | sync => exact busy
  | async =>
      refine absurd busy ((reach.trans reach₁).not_busy fun x hx => plain x ?_)
      exact ((Machine.Reaches.step .start hs).trans later).suffix.subset hx

end Wiring.Registry
