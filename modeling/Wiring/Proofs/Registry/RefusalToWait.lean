import Wiring.Proofs.Registry.Declining
import Wiring.Proofs.Registry.Agreement
import Wiring.Proofs.Registry.Generations

/-!
A refusal to wait has no effect. Until it is refused a call has only looked: its steps run nothing,
tell nobody and write nothing but the gate of a slot, which it gives back. So the registry is the
same for everybody before and after; and where an instance is cached, a plain call returns it on any
thread.
-/
namespace Wiring.Registry

def Action.IsLook : Action → Prop
  | enter .. | leave .. | claimSlot _ | findEntry _ | readEntry _ | tryGate _ | freeGate _
  | readCell _ => True
  | _ => False

theorem Entry.Waits.isLook {c : ClientId} {e : Entry} {own : List Performed}
    (waits : e.Waits c own) : ∀ x ∈ own, x.action.IsLook := by
  cases waits with
  | fresh | pending => simp [Action.IsLook]

theorem ComesUpon.isLook {c : ClientId} {key : Key} {e : Entry} {own : List Performed}
    (comes : ComesUpon c key e own) : ∀ x ∈ own, x.action.IsLook := by
  cases comes with
  | found | there | passed => simp [Action.IsLook]

theorem Declined.isLook {c : ClientId} {key : Key} {own : List Performed}
    (declined : Declined c key own) : ∀ x ∈ own, x.action.IsLook := by
  cases declined with
  | awaited comes waits =>
      intro x hx
      cases List.mem_append.1 hx with
      | inl hx => exact comes.isLook x hx
      | inr hx => exact waits.isLook x hx
  | held => simp [Action.IsLook]

theorem Declined.call_isLook {c : ClientId} {key : Key} {own : List Performed} {mode : Mode}
    {offer : Option ProducerId} {task : List String} {r : Resolved}
    (declined : Declined c key own) :
    ∀ x ∈ (⟨c, .enter mode key offer, .ok task⟩ : Performed) ::
      (own ++ [⟨c, .leave mode key task r, ()⟩]), x.action.IsLook := by
  intro x hx
  simp only [List.mem_cons, List.mem_append, List.not_mem_nil, or_false] at hx
  obtain rfl | hx | rfl := hx
  · trivial
  · exact declined.isLook x hx
  · trivial

/-- What can be seen of the registry is the same for everybody, and nothing has been run, told or
kept in between. -/
structure Machine.Unnoticed (m m' : Machine) : Prop where
  entries : ∀ key, m'.store.entryOf? key = m.store.entryOf? key
  kept : ∀ key, m'.store.kept? key = m.store.kept? key
  answers : ∀ {mode : Mode} (q : Request mode), m'.store.answer? q = m.store.answer? q
  runs : m'.store.runs = m.store.runs
  made : m'.store.made = m.store.made
  events : m'.history.events = m.history.events

theorem Store.entryOf?_claim (s : Store) (key k : Key) :
    (s.claim key).2.entryOf? k = s.entryOf? k := by
  unfold Store.entryOf?
  cases hk : s.slotOf? k with
  | some id => simp [Store.slotOf?_claim hk, Store.slot_claim]
  | none =>
      cases hc : (s.claim key).2.slotOf? k with
      | none => rfl
      | some id =>
          obtain there | ⟨-, -, rfl⟩ := Store.slotOf?_claim_cases hc
          · cases hk.symm.trans there
          · simp [Store.slot_claim, s.slot_of_length_le (Nat.le_refl _), Slot.fresh]

section Looks

variable {c : ClientId} {t t' : Trail} {s s' : Store} {a : Action} {r : a.Response}

theorem Action.IsLook.entryOf? (look : a.IsLook) (hp : a.perform c t s = some (r, t', s'))
    (key : Key) : s'.entryOf? key = s.entryOf? key := by
  have entry := Action.perform_entry hp fun slot e he => by
    rw [he] at look
    exact look
  cases Action.alters hp with
  | nothing slots index =>
      have same := index fun he => by
        rw [he] at look
        exact look
      simp only [Store.entryOf?, Store.slotOf?, same, entry]
  | slot => simp only [Store.entryOf?, Store.slotOf?_update, entry]
  | index => exact s.entryOf?_claim _ key

theorem Action.IsLook.cell (look : a.IsLook) (hp : a.perform c t s = some (r, t', s'))
    (id : SlotId) : (s'.slot id).cell = (s.slot id).cell := by
  refine Action.perform_view Slot.cell hp (fun slot f writes σ => ?_) id
  cases a with
  | tryGate | freeGate =>
      cases writes
      rfl
  | enter | leave | claimSlot | findEntry | readEntry | readCell => cases writes
  | _ => cases look

theorem Action.IsLook.counts (look : a.IsLook) (hp : a.perform c t s = some (r, t', s')) :
    s'.runs = s.runs ∧ s'.made = s.made := by
  have tallies := Action.tallies hp
  cases a with
  | enter | leave | claimSlot | findEntry | readEntry | tryGate | freeGate | readCell =>
      exact ⟨tallies.1, tallies.2.1⟩
  | _ => cases look

theorem Action.IsLook.not_counts (look : a.IsLook) : a.counts = false := by
  cases a with
  | beginRun | endRun | observe | note => cases look
  | _ => rfl

theorem History.events_congr {h h' : History} (counted : h'.counted = h.counted) :
    h'.events = h.events := by
  rw [← History.events_counted, counted, History.events_counted]

end Looks

section Reached

variable {setting : Setting} {jobs : List (List Demand)} {m m' : Machine} {c : ClientId}

theorem Machine.Reaches.look_unnoticed (reach : (Machine.start setting jobs).Reaches m)
    (hs : m.step c = some m') {x : Performed} (history : m'.history = x :: m.history)
    (look : x.action.IsLook) : m.Unnoticed m' := by
  obtain ⟨_, _, -, apart⟩ := reach.conducted (J := Indexed) List.nodup_nil (indexed_kept _)
  obtain ⟨_, _, -, apart'⟩ := (reach.trans (.step .start hs)).conducted (J := Indexed)
    List.nodup_nil (indexed_kept _)
  obtain ⟨_, _, a, r, _, _, history', taken⟩ := reach.performs hs
  obtain rfl : x = ⟨c, a, r⟩ := (List.cons.inj (history.symm.trans history')).1
  have entry := look.entryOf? taken.performs
  have cell := look.cell taken.performs
  refine ⟨entry, fun key => ?_, fun q => ?_, (look.counts taken.performs).1,
    (look.counts taken.performs).2, ?_⟩
  · simp only [Store.kept?, entry, cell]
  · exact Store.answer?_congr apart apart' entry (fun id => by rw [cell]) q
  · rw [history]
    exact History.events_congr (History.counted_cons look.not_counts)

theorem Trail.refusal?_ne_blocking {t : Trail} {name service : String} :
    t.refusal? name ≠ some (.blockingInAsyncContext service) := by
  unfold Trail.refusal?
  split
  · simp
  · split <;> simp

theorem Machine.Reaches.honest (reach : (Machine.start setting jobs).Reaches m)
    (hs : m.step c = some m') {x : Performed} (history : m'.history = x :: m.history) :
    x.Honest := by
  obtain ⟨_, _, a, r, _, _, history', taken⟩ := reach.performs hs
  obtain rfl : x = ⟨c, a, r⟩ := (List.cons.inj (history.symm.trans history')).1
  cases a with
  | enter mode key offer =>
      cases r with
      | ok task => trivial
      | error e =>
          rintro service rfl
          have hp := taken.performs
          simp only [Action.perform] at hp
          split at hp
          · next e refused =>
              cases (Prod.mk.inj (Option.some.inj hp)).1
              exact Trail.refusal?_ne_blocking refused
          · cases (Prod.mk.inj (Option.some.inj hp)).1
  | publish slot e =>
      obtain ⟨call, rest, stage, -, -, n⟩ := taken.own rfl
      obtain ⟨_, _, _, before⟩ := call
      cases n <;> rfl
  | endRun =>
      obtain ⟨call, rest, stage, -, -, n⟩ := taken.own rfl
      obtain ⟨_, _, _, before⟩ := call
      cases r with
      | error e => trivial
      | ok inst =>
          cases n with
          | tried made | made made => exact made.key
  | _ => trivial

theorem Machine.CarriesOut.honest {α : Type} {κ : α → Program (List Reply)} {p : Program α}
    {own : List Performed} {a : α} (reach : (Machine.start setting jobs).Reaches m)
    (carried : Machine.CarriesOut c κ m p own a m') : ∀ x ∈ own, x.Honest := by
  intro x hx
  obtain ⟨before, after, split⟩ := List.append_of_mem hx
  obtain ⟨m₁, m₂, reach₁, hs, history, -, -⟩ := carried.moment split
  exact (reach.trans reach₁).honest hs history

end Reached

/-- A slot that is not as it was made has been there before it is claimed. -/
theorem Store.claim_old (s : Store) (key : Key)
    (used : (s.claim key).2.slot (s.claim key).1 ≠ .fresh) : (s.claim key).2 = s := by
  cases hk : s.slotOf? key with
  | some id => rw [Store.claim_of_some hk]
  | none =>
      rw [Store.slot_claim, Store.claim_of_none hk] at used
      exact absurd (s.slot_of_length_le (Nat.le_refl _)) used

namespace Situation

variable {c : ClientId} {key : Key} {e : Entry} {own : List Performed} {w w' : Situation}

theorem leads_append {first rest : List Performed} :
    w.Leads (first ++ rest) w' ↔ ∃ v, w.Leads first v ∧ v.Leads rest w' := by
  induction first generalizing w with
  | nil => exact ⟨fun h => ⟨w, rfl, h⟩, by rintro ⟨_, rfl, h⟩; exact h⟩
  | cons p first ih =>
      constructor
      · rintro ⟨v, hp, history, h⟩
        obtain ⟨u, h₁, h₂⟩ := ih.1 h
        exact ⟨u, ⟨v, hp, history, h₁⟩, h₂⟩
      · rintro ⟨u, ⟨v, hp, history, h₁⟩, h₂⟩
        exact ⟨v, hp, history, ih.2 ⟨u, h₁, h₂⟩⟩

def Stays (own : List Performed) : Prop :=
  ∀ w w' : Situation, w.Leads own w' → w'.store = w.store ∧ w'.trail = w.trail

theorem Stays.append {first rest : List Performed} (h : Stays first) (h' : Stays rest) :
    Stays (first ++ rest) := by
  intro w w' leads
  obtain ⟨v, h₁, h₂⟩ := leads_append.1 leads
  obtain ⟨store, trail⟩ := h w v h₁
  obtain ⟨store', trail'⟩ := h' v w' h₂
  exact ⟨store'.trans store, trail'.trans trail⟩

theorem stays_waits (waits : e.Waits c own) : Stays own := by
  intro w w' leads
  cases waits with
  | fresh =>
      cases leads
      exact ⟨rfl, rfl⟩
  | pending =>
      obtain ⟨v, hp, -, rfl⟩ := leads
      simp only [Action.perform] at hp
      split at hp <;> simp_all

theorem stays_comesUpon (comes : ComesUpon c key e own) : Stays own := by
  intro w w' leads
  cases comes with
  | found =>
      obtain ⟨v, hp, -, rfl⟩ := leads
      simp only [Action.perform, Option.some.injEq, Prod.mk.injEq] at hp
      exact ⟨hp.2.2.symm, hp.2.1.symm⟩
  | there =>
      obtain ⟨v, hp, -, u, hq, -, rfl⟩ := leads
      simp only [Action.perform, Option.some.injEq, Prod.mk.injEq] at hp hq
      obtain ⟨rfl, trail, store⟩ := hp
      obtain ⟨entry, trail', store'⟩ := hq
      rw [← store] at entry store'
      have old := w.store.claim_old key fun fresh => by
        simp [fresh, Slot.fresh] at entry
      exact ⟨store'.symm.trans old, (trail.trans trail').symm⟩
  | @passed slot =>
      obtain ⟨v, hp, -, u, hq, -, x, hg, -, y, hr, -, -⟩ := leads
      simp only [Action.perform, Option.some.injEq, Prod.mk.injEq] at hp hq hr
      obtain ⟨vacant, -, same⟩ := hq
      simp only [Action.perform] at hg
      split at hg
      · simp at hg
      · simp only [Option.some.injEq, Prod.mk.injEq] at hg
        obtain ⟨entry, -, -⟩ := hr
        have there : ((u.store.update slot fun σ => { σ with gate := some c }).slot slot).entry =
            (u.store.slot slot).entry :=
          Store.view_update Slot.entry fun _ => rfl
        rw [hg.2.2, entry, ← same, vacant] at there
        cases there

theorem stays_declined (declined : Declined c key own) : Stays own := by
  cases declined with
  | awaited comes waits => exact (stays_comesUpon comes).append (stays_waits waits)
  | held =>
      intro w w' leads
      obtain ⟨v, hp, -, u, hq, -, x, hg, -, rfl⟩ := leads
      simp only [Action.perform, Option.some.injEq, Prod.mk.injEq] at hp hq
      obtain ⟨rfl, trail, store⟩ := hp
      obtain ⟨-, trail', store'⟩ := hq
      simp only [Action.perform] at hg
      split at hg
      · next held =>
          simp only [Option.some.injEq, Prod.mk.injEq, true_and] at hg
          rw [← store', ← store] at held
          have old := w.store.claim_old key fun fresh => by
            simp [fresh, Slot.fresh] at held
          exact ⟨hg.2.symm.trans (store'.symm.trans (store.symm.trans old)),
            (trail.trans (trail'.trans hg.1)).symm⟩
      · simp at hg

/-- A call that does nothing inside leaves everything as it was. -/
theorem stays_call {mode : Mode} {offer : Option ProducerId} {task : List String} {r : Resolved}
    (inside : Stays own) :
    Stays (⟨c, .enter mode key offer, .ok task⟩ ::
      (own ++ [⟨c, .leave mode key task r, ()⟩])) := by
  rintro w w' ⟨v, hp, -, leads⟩
  obtain ⟨u, h₁, x, hq, -, rfl⟩ := leads_append.1 leads
  obtain ⟨store, trail⟩ := inside v u h₁
  simp only [Action.perform] at hp
  split at hp
  · simp at hp
  · simp only [Option.some.injEq, Prod.mk.injEq, Except.ok.injEq] at hp
    obtain ⟨rfl, entered, store'⟩ := hp
    simp only [Action.perform, trail, ← entered, Program.leave?_enter, Option.map_some,
      Option.some.injEq, Prod.mk.injEq, true_and] at hq
    exact ⟨hq.2.symm.trans (store.trans store'.symm), hq.1.symm⟩

end Situation

namespace Program

variable {α β : Type} {me : ClientId} {w : Situation}

/-- What a program does from a situation rests on the trail and the store alone. -/
theorem run_alike (p : Program α) {w w' : Situation} (alike : w.Alike w') :
    Option.Rel (fun x y => x.1 = y.1 ∧ x.2.Alike y.2) (p.run me w) (p.run me w') := by
  induction p generalizing w w' with
  | done a => exact .some ⟨rfl, alike⟩
  | step a next ih =>
      simp only [run, advance, alike.trail, alike.store]
      cases a.perform me w'.trail w'.store with
      | none => exact .none
      | some x =>
          obtain ⟨r, t, s⟩ := x
          have counted : History.counted (⟨me, a, r⟩ :: w.history) =
              History.counted (⟨me, a, r⟩ :: w'.history) := by
            have same := alike.counted
            simp only [History.counted, List.filter_cons] at same ⊢
            rw [same]
          exact ih r ⟨rfl, rfl, counted, History.events_congr counted⟩

def Answers (me : ClientId) (p : Program α) (w : Situation) (a : α) : Prop :=
  ∃ h, p.run me w = some (a, { w with history := h })

theorem answers_pure (a : α) : (pure a : Program α).Answers me w a := ⟨w.history, rfl⟩

theorem answers_after (a : Action) (r : a.Response) {f : a.Response → Program β} {b : β}
    (hp : a.perform me w.trail w.store = some (r, w.trail, w.store))
    (rest : ∀ h, (f r).Answers me { w with history := h } b) :
    (perform a >>= f).Answers me w b := by
  obtain ⟨h, ran⟩ := rest (⟨me, a, r⟩ :: w.history)
  refine ⟨h, ?_⟩
  rw [run_perform]
  simp only [advance, hp, Option.bind_some]
  exact ran

theorem Answers.return {p : Program α} {a : α} (answers : p.Answers me w a) (f : α → β) :
    Answers me (return f (← p)) w (f a) := by
  obtain ⟨h, ran⟩ := answers
  refine ⟨h, ?_⟩
  rw [run_bind, ran]
  rfl

theorem answers_guarded {mode : Mode} {key : Key} {offer : Option ProducerId}
    {body : Program Resolved} {r : Resolved}
    (inside : ∀ h, body.Answers me ⟨w.trail.enter key.name mode, w.store, h⟩ r) :
    (guarded mode key offer body).Answers me w
      (match w.trail.refusal? key.name with
        | some e => .error e
        | none => r) := by
  unfold guarded
  cases hr : w.trail.refusal? key.name with
  | some e =>
      exact answers_after (.enter mode key offer) (.error e) (by simp only [Action.perform, hr])
        fun h => answers_pure _
  | none =>
      obtain ⟨h, ran⟩ := inside (⟨me, .enter mode key offer, .ok w.trail.task⟩ :: w.history)
      refine ⟨⟨me, .leave mode key w.trail.task r, ()⟩ :: h, ?_⟩
      have entered : advance me (.enter mode key offer) w =
          some (.ok w.trail.task, ⟨w.trail.enter key.name mode, w.store,
            ⟨me, .enter mode key offer, .ok w.trail.task⟩ :: w.history⟩) := by
        simp only [advance, Action.perform, hr]
      rw [run_perform, entered, Option.bind_some, run_bind, ran, Option.bind_some, run_perform]
      simp only [advance, Action.perform, leave?_enter, Option.map_some, Option.bind_some]
      rfl

section Cached

variable {setting : Setting} {runner : Runner} {runtime : Runtime} {key : Key} {e : Entry}
  {inst : Instance}

/-- A plain read of an entry that keeps an instance waits for nothing. -/
theorem answers_readSync
    (kept : e.resolution.instance? = some inst ∨
      e.resolution.isLazy ∧ (w.store.slot e.slot).cell = .full inst) :
    (readSync setting runner runtime e).Answers me w (.ok inst) := by
  unfold readSync
  cases hr : e.resolution with
  | singleton i | singletonAsync i =>
      simp only [hr, Resolution.instance?, Resolution.isLazy, Option.some.injEq] at kept
      obtain rfl | ⟨lazy, -⟩ := kept
      · exact answers_pure _
      · cases lazy
  | lazySingleton p =>
      simp only [hr, Resolution.instance?, reduceCtorEq, false_or] at kept
      exact answers_after (.claimCell e.slot) (some inst) (by simp only [Action.perform, kept.2])
        fun h => answers_pure _
  | lazySingletonAsync p =>
      simp only [hr, Resolution.instance?, reduceCtorEq, false_or] at kept
      exact answers_after (.readCell e.slot) (some inst) (by simp only [Action.perform, kept.2])
        fun h => answers_pure _
  | factory p | factoryAsync p => simp [hr, Resolution.instance?, Resolution.isLazy] at kept

theorem answers_cached (x : EntryPoint .sync) (fits : ¬x.Mismatched)
    (entry : w.store.entryOf? key = some e) (own : inst.key = key)
    (kept : e.resolution.instance? = some inst ∨
      e.resolution.isLazy ∧ (w.store.slot e.slot).cell = .full inst) :
    (x.program setting runner runtime key).Answers me w
      (match w.trail.refusal? key.name with
        | some error => .error error
        | none => .ok inst) := by
  have read (h : History) (t : Trail) :
      Answers me (return checked key (← readSync setting runner runtime e)) ⟨t, w.store, h⟩
        (.ok inst) := by
    have answers : (readSync setting runner runtime e).Answers me ⟨t, w.store, h⟩ (.ok inst) :=
      answers_readSync kept
    simpa only [checked, own, if_true] using answers.return (checked key)
  cases x with
  | read =>
      refine answers_guarded fun h => ?_
      exact answers_after (.findEntry key) (some e) (by simp only [Action.perform, entry])
        fun h => read h _
  | register policy producer =>
      have mode : policy.mode = .sync := not_not.1 fits
      have plain : policy.isAsync = false := by rw [Policy.isAsync, mode]; rfl
      simp only [EntryPoint.program, getOrRegister, plain]
      obtain ⟨slot, indexed, there⟩ := Option.bind_eq_some_iff.1 entry
      refine answers_guarded fun h => ?_
      refine answers_after (.claimSlot key) slot ?_ fun h => ?_
      · simp only [Action.perform, Store.claim_of_some indexed]
      · exact answers_after (.readEntry slot) (some e) (by simp only [Action.perform, there])
          fun h => read h _

end Cached

end Program

/-- What is so of plain calls on any thread, for as long as a machine has not gone on. -/
structure Machine.RefusesCleanly (setting : Setting) (m : Machine) : Prop where
  /-- Whatever others do meanwhile, a call that is itself refused to wait takes steps that nobody
  notices: it runs no producer, tells no observer, publishes nothing and keeps nothing. -/
  unnoticed : ∀ {c : ClientId} {κ : Resolved → Program (List Reply)} {level : Nat}
    {runtime : Runtime} {key : Key} (x : EntryPoint .sync) {own : List Performed} {r : Resolved}
    {m' : Machine},
    CarriesOut c κ m (x.program setting (runScript setting level) runtime key) own r m' →
      Refused own key r → ∀ p ∈ own, p.action.IsLook ∧
        ∃ m₁ m₂, m.Reaches m₁ ∧ m₁.step c = some m₂ ∧ m₂.history = p :: m₁.history ∧
          m₂.Reaches m' ∧ m₁.Unnoticed m₂
  /-- If nobody else has done anything meanwhile, everything is as it was, and every request that
  follows is answered as if the call had not been made. -/
  undone : ∀ {c : ClientId} {κ : Resolved → Program (List Reply)} {level : Nat}
    {runtime : Runtime} {key : Key} (x : EntryPoint .sync) {own : List Performed} {r : Resolved}
    {m' : Machine} {t : Trail},
    CarriesOut c κ m (x.program setting (runScript setting level) runtime key) own r m' →
      Refused own key r → m'.history = own.reverse ++ m.history →
        m.clients[c]? =
          some ⟨t, (x.program setting (runScript setting level) runtime key).bind κ⟩ →
          m'.store = m.store ∧ m'.clients[c]? = some ⟨t, κ r⟩ ∧
            (∀ c', c' ≠ c → m'.clients[c']? = m.clients[c']?) ∧
              m'.history.events = m.history.events ∧
                ∀ {mode : Mode} (q : Request mode) (level : Nat) (runtime : Runtime)
                  (c : ClientId) (t : Trail),
                  Option.Rel (fun x y => x.1 = y.1 ∧ x.2.Alike y.2)
                    ((q.program setting (runScript setting level) runtime).run c
                      ⟨t, m'.store, m'.history⟩)
                    ((q.program setting (runScript setting level) runtime).run c
                      ⟨t, m.store, m.history⟩)
  /-- Where an instance is cached, it is returned, unless the trail refuses the call. -/
  cached : ∀ {c : ClientId} {level : Nat} {runtime : Runtime} {key : Key} {t : Trail}
    {inst : Instance} (x : EntryPoint .sync), ¬x.Mismatched → m.store.kept? key = some inst →
      (x.program setting (runScript setting level) runtime key).Answers c
        ⟨t, m.store, m.history⟩
        (match t.refusal? key.name with
          | some error => .error error
          | none => .ok inst)

/-- A refusal to wait has no effect, and no call is refused to wait that finds an instance. -/
theorem refusal_to_wait_has_no_effect {setting : Setting} {jobs : List (List Demand)} {m : Machine}
    (reach : (Machine.start setting jobs).Reaches m) : m.RefusesCleanly setting := by
  refine ⟨?_, ?_, ?_⟩
  · intro c κ level runtime key x own r m' carried refused p hp
    obtain ⟨-, task, looks, declined, rfl⟩ :=
      declined_entryPoint x carried.traces refused (carried.honest reach)
    have look := declined.call_isLook p hp
    obtain ⟨before, after, split⟩ := List.append_of_mem hp
    obtain ⟨m₁, m₂, reach₁, hs, history, -, later⟩ := carried.moment split
    exact ⟨look, m₁, m₂, reach₁, hs, history, later,
      (reach.trans reach₁).look_unnoticed hs history look⟩
  · intro c κ level runtime key x own r m' t carried refused alone here
    obtain ⟨-, task, looks, declined, rfl⟩ :=
      declined_entryPoint x carried.traces refused (carried.honest reach)
    obtain ⟨w, leads, stored, told, last, others⟩ := carried.leads alone here
    obtain ⟨store, trail⟩ := Situation.stays_call (Situation.stays_declined declined) _ _ leads
    have store : m'.store = m.store := stored.symm.trans store
    rw [show w.trail = t from trail] at last
    have counted : m'.history.counted = m.history.counted := by
      rw [alone]
      refine (List.filter_append ..).trans (List.append_left_eq_self.2 ?_)
      refine List.filter_eq_nil_iff.2 fun p hp => ?_
      rw [(declined.call_isLook p (List.mem_reverse.1 hp)).not_counts]
      exact Bool.false_ne_true
    have events := History.events_congr counted
    refine ⟨store, last, others, events, fun q level runtime c t => ?_⟩
    exact Program.run_alike _ ⟨rfl, store, counted, events⟩
  · intro c level runtime key t inst x fits kept
    obtain ⟨keys, calls, conducted, -⟩ :=
      reach.conducted (J := fun _ _ _ _ => True) trivial fun _ _ => trivial
    obtain ⟨e, entry, kept⟩ := Option.bind_eq_some_iff.1 kept
    obtain ⟨slot, indexed, there⟩ := Option.bind_eq_some_iff.1 entry
    have hk := conducted.tenure.index key slot indexed
    have suits := conducted.tenure.suits hk there
    cases hi : e.resolution.instance? with
    | some i =>
        rw [hi] at kept
        obtain rfl : i = inst := Option.some.inj kept
        exact Program.answers_cached x fits entry ((suits.sound.key i hi).trans suits.key) (.inl hi)
    | none =>
        cases hc : (m.store.slot e.slot).cell with
        | full i =>
            simp only [hi, hc, Cell.instance?, Option.orElse_eq_orElse, Option.orElse_eq_or,
              Option.none_or, Option.some.injEq] at kept
            subst kept
            rw [suits.slot] at hc
            obtain ⟨e', there', lazy, own, -⟩ := conducted.tenure.full slot i hc
            cases there.symm.trans there'
            exact Program.answers_cached x fits entry (own.trans suits.key)
              (.inr ⟨lazy, suits.slot ▸ hc⟩)
        | empty | filling => simp [hi, hc, Cell.instance?] at kept

def stationKey : Key := ⟨"app::Station", "Station"⟩

def stationSetting : Setting :=
  ⟨1, fun _ => ⟨.factoryAsync, fun _ _ => .finish (.ok ⟨none, []⟩)⟩⟩

def stationJobs : List (List Demand) :=
  [[⟨.inr (.resolveAsync stationKey), .multi⟩], [⟨.inl (.get stationKey), .current⟩]]

theorem station_is_refused_without_effect :
    ∃ m m' own r, (Machine.start stationSetting stationJobs).Reaches m ∧
      Machine.CarriesOut 1 (fun r => .done [.resolved r]) m
        ((EntryPoint.read (m := .sync)).program stationSetting
          (runScript stationSetting maxDepth) .currentThread stationKey) own r m' ∧
      Refused own stationKey r ∧ m'.store = m.store ∧ m'.history.events = m.history.events := by
  have found : ((Machine.start stationSetting stationJobs).follow (List.replicate 13 0)).any
      fun m => ((Program.get stationSetting (runScript stationSetting maxDepth) .currentThread
        stationKey).run 1 ⟨.empty, m.store, m.history⟩).any fun x =>
          Refused x.2.history stationKey x.1 := by decide +kernel
  obtain ⟨m, followed, found⟩ := (Option.any_eq_true _ _).1 found
  obtain ⟨⟨r, w⟩, ran, found⟩ := (Option.any_eq_true _ _).1 found
  obtain ⟨error, itself⟩ := of_decide_eq_true found
  obtain ⟨here, own, m', carried, history, alone⟩ :=
    Machine.exists_carriesOut_first (d := ⟨.inl (.get stationKey), .current⟩) rfl rfl followed
      (by decide) ran
  have refused : Refused own stationKey r :=
    ⟨error, fun fails => itself (fails.mono fun x hx => history ▸ carried.mem_history hx)⟩
  have reach := Machine.reaches_of_follow followed
  obtain ⟨store, -, -, events, -⟩ :=
    (refusal_to_wait_has_no_effect reach).undone .read carried refused alone here
  exact ⟨m, m', own, r, reach, carried, refused, store, events⟩

end Wiring.Registry
