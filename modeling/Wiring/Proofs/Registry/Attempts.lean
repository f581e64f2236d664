import Wiring.Proofs.Registry.Generations

/-!
Runs that fail. When a run of the producer of an entry fails, the entry stands with its producer and
nothing is cached. A call that is made later finds this entry and runs this producer again, until
for a lazy entry some run succeeds.
-/
namespace Wiring.Registry

def History.MakesSince (h base : History) (slot : SlotId) (inst : Instance) : Prop :=
  ∃ c o h', ⟨c, .endRun slot inst.key inst.producer inst.run o, .ok inst⟩ :: h' <:+ h ∧ base <:+ h'

def EnteredSince (base : History) (own : List History) : Prop :=
  ∃ first, own.getLast? = some first ∧ base <:+ first

/-- A call with producer `p` to run has come to entry `e` or is on its way to it, or it has failed
as a run of `p` has. -/
def Stage.By (e : Entry) (p : ProducerId) (ended : List (ProducerId × Resolved)) : Stage → Prop
  | entered => True
  | claimed slot => slot = e.slot
  | missed _ | gated _ | vacant _ | trying .. | tried .. => False
  | announcing e' _ | passed e' | reading e' | filling e' | making e' .. | made e' _
  | settled e' _ => e' = e
  | failed error => ended = [(p, .error error)]

theorem History.MakesSince.mono {h h' base : History} (hs : h <:+ h') {slot : SlotId}
    {inst : Instance} (makes : h.MakesSince base slot inst) : h'.MakesSince base slot inst := by
  obtain ⟨c, o, before, there, since⟩ := makes
  exact ⟨c, o, before, there.trans hs, since⟩

section Steps

variable {terms : Terms} {call : Call} {own : List History} {a : Action} {r : a.Response}
  {stage : Stage} {c : ClientId} {h : History} {ended : List (ProducerId × Resolved)} {e : Entry}
  {p : ProducerId} {n : Nat} {base : History}

/-- A step of a call that has an entry in its slot. -/
theorem Stage.By.next {t t' : Trail} {s s' : Store}
    (step : call.stage.Next terms call.key call.offer a r stage)
    (performs : a.perform c t s = some (r, t', s')) (entry : (s.slot e.slot).entry = some e)
    (known : ∀ k e', s.entryOf? k = some e' → (s.slot e'.slot).entry = some e')
    (hp : e.resolution.producer? = some p) (ran : call.Ran ended) (looked : call.Looked own)
    (old : lookup? own = some (e.slot, n) → call.stage.By e p ended)
    (found : lookup? ((⟨c, a, r⟩ :: h) :: own) = some (e.slot, n)) :
    stage.By e p ((History.ran? (⟨c, a, r⟩ :: h)).toList ++ ended) := by
  obtain ⟨key, mode, offer, before⟩ := call
  rw [lookup?_cons] at found
  cases step with
  | find =>
      simp only [looked.entered rfl, Option.none_or, History.looks?, Option.some.injEq,
        Prod.mk.injEq] at found
      simp only [Action.perform, Option.some.injEq, Prod.mk.injEq] at performs
      have there := known key _ performs.1
      rw [found.1] at there
      exact Option.some.inj (there.symm.trans entry)
  | claim =>
      rw [looked.entered rfl] at found
      cases found
      rfl
  | absent =>
      rw [looked.entered rfl] at found
      cases found
  | hit =>
      obtain rfl : _ = e.slot := old (by simpa [History.looks?] using found)
      simp only [Action.perform, entry] at performs
      cases performs
      rfl
  | miss =>
      obtain rfl : _ = e.slot := old (by simpa [History.looks?] using found)
      simp [Action.perform, entry] at performs
  | unfill =>
      obtain rfl := old (by simpa [History.looks?] using found)
      obtain ⟨p', hp', rfl⟩ := ran
      cases hp.symm.trans hp'
      rfl
  | tryGate | gateHeld | takeGate | pass | confirm | attempt | tried | publish | publishMade
  | freeTried => cases old (by simpa [History.looks?] using found)
  | _ => exact old (by simpa [History.looks?] using found)

theorem Stage.By.passes (old : call.stage.By e p ended) (running : call.stage.run?.isSome)
    (ended' : List (ProducerId × Resolved)) : call.stage.By e p ended' := by
  obtain ⟨key, mode, offer, stage⟩ := call
  cases stage with
  | trying => cases old
  | making => exact old
  | _ => cases running

theorem EnteredSince.tail {x : History} (since : EnteredSince base (x :: own))
    (comes : call.Comes terms c own) : EnteredSince base own := by
  obtain ⟨first, last, hs⟩ := since
  exact ⟨first, by rwa [List.getLast?_cons_of_ne_nil comes.ne_nil] at last, hs⟩

end Steps

/-- A call has come to its stage by its deeds, and by entry `e` if it was made after `base` and has
looked up the slot of `e`. -/
structure Call.Heeds (base : History) (e : Entry) (p : ProducerId) (terms : Terms)
    (c : ClientId) (own : List History) (call : Call) : Prop where
  comes : call.Comes terms c own
  goes : EnteredSince base own → ∀ n, lookup? own = some (e.slot, n) → call.stage.By e p (runs own)

/-- What is so of an entry from `base` on, at which a run of its producer has failed. Calls that are
made later go by this entry if they find its slot, and what its cell holds was made since. -/
structure Standing (base : History) (e : Entry) (p : ProducerId) (terms : Terms) (_ : List Key)
    (calls : ClientId → List Call) (s : Store) (h : History) : Prop where
  since : base <:+ h
  producer : e.resolution.producer? = some p
  entry : (s.slot e.slot).entry = some e
  later : ∀ c, List.Forall₂ (Call.Heeds base e p terms c) (h.deeds c) (calls c)
  made : ∀ c, ∀ call ∈ calls c, ∀ inst, call.stage = .made e (.ok inst) → e.resolution.isLazy →
    h.MakesSince base e.slot inst
  cached : ∀ inst, (s.slot e.slot).cell = .full inst → h.MakesSince base e.slot inst

/-- A call has come to its stage by its deeds, and if it was made for `key` after `base` it has
looked up `slot`, or nothing so far. -/
structure Call.Finds (base : History) (key : Key) (slot : SlotId) (terms : Terms) (c : ClientId)
    (own : List History) (call : Call) : Prop where
  comes : call.Comes terms c own
  finds : call.key = key → EnteredSince base own →
    call.stage = .entered ∨ ∃ n, lookup? own = some (slot, n)

def Findable (base : History) (key : Key) (e : Entry) (terms : Terms) (_ : List Key)
    (calls : ClientId → List Call) (s : Store) (h : History) : Prop :=
  base <:+ h ∧ (h.resets = base.resets → s.slotOf? key = some e.slot ∧
    (s.slot e.slot).entry = some e ∧
      ∀ c, List.Forall₂ (Call.Finds base key e.slot terms c) (h.deeds c) (calls c))

section Kept

variable {base : History} {key : Key} {e : Entry} {p : ProducerId} {terms : Terms}
  {keys : List Key} {calls : ClientId → List Call} {s : Store} {c : ClientId} {a : Action}
  {r : a.Response} {calls' : List Call} {keys' : List Key} {s' : Store} {h : History}

theorem Standing.later_kept (old : Standing base e p terms keys calls s h)
    (taken : Taken terms keys calls s c a r calls' keys' s') (me : ClientId) :
    List.Forall₂ (Call.Heeds base e p terms me) (History.deeds me (⟨c, a, r⟩ :: h))
      (Function.update calls c calls' me) := by
  refine taken.deeds_kept old.later ?_ ?_ ?_ me
  · intro call comes entered
    exact ⟨comes, fun _ _ _ => by rw [entered]; trivial⟩
  · intro own call rest stage hcs before step
    refine ⟨.next before.comes step, fun since n found => ?_⟩
    rw [runs_cons]
    exact Stage.By.next step taken.performs old.entry
      (fun k e' he => (Recorded.suits taken.before he).2) old.producer before.comes.ran
      before.comes.looked (before.goes (since.tail before.comes) n) found
  · intro own call before running passes
    refine ⟨before.comes.passes running passes, fun since n found => ?_⟩
    rw [before.comes.looked.running running] at found
    exact (before.goes (since.tail before.comes) n found).passes running _

theorem Standing.made_kept (old : Standing base e p terms keys calls s h)
    (taken : Taken terms keys calls s c a r calls' keys' s') (me : ClientId) (call : Call)
    (hc : call ∈ Function.update calls c calls' me) (inst : Instance)
    (made : call.stage = .made e (.ok inst)) (lazy : e.resolution.isLazy) :
    History.MakesSince (⟨c, a, r⟩ :: h) base e.slot inst := by
  have later := List.suffix_cons (⟨c, a, r⟩ : Performed) h
  cases taken.origin hc with
  | old there => exact (old.made me call there inst made lazy).mono later
  | entered new => cases new.symm.trans made
  | @stepped before stage mine there step =>
      obtain ⟨key, mode, offer, stage'⟩ := before
      cases step with
      | @made _ _ _ outcome _ hm =>
          cases made
          obtain ⟨rfl, rfl, rfl⟩ := hm.origin
          exact ⟨c, outcome, h, List.suffix_refl _, old.since⟩
      | observe => exact (old.made c _ there inst made lazy).mono later
      | _ => cases made

theorem Standing.cached_kept (old : Standing base e p terms keys calls s h)
    (taken : Taken terms keys calls s c a r calls' keys' s') (inst : Instance)
    (full : (s'.slot e.slot).cell = .full inst) :
    History.MakesSince (⟨c, a, r⟩ :: h) base e.slot inst := by
  have later := List.suffix_cons (⟨c, a, r⟩ : Performed) h
  cases Action.full_cases taken.performs full with
  | inl there => exact (old.cached inst there).mono later
  | inr now =>
      subst now
      obtain ⟨⟨k, mode, offer, stage⟩, rest, stage', hcs, -, step⟩ := taken.own rfl
      generalize hslot : e.slot = slot at step
      cases step with
      | @fill e' _ lazy =>
          have top : (⟨k, mode, offer, .made e' (.ok inst)⟩ : Call) ∈ calls c := by simp [hcs]
          have known := taken.before.known c _ top e' rfl
          rw [← hslot, old.entry] at known
          cases known
          exact (old.made c _ top inst rfl lazy).mono later

/-- The step with which a call for `key` looks its slot up finds the one that the key has. -/
theorem Call.Finds.next {slot : SlotId} {call : Call} {own : List History} {stage : Stage}
    (old : call.Finds base key slot terms c own)
    (step : call.stage.Next terms call.key call.offer a r stage) {t t' : Trail}
    (performs : a.perform c t s = some (r, t', s')) (indexed : s.slotOf? key = some slot)
    (entry : ∃ e, s.entryOf? key = some e ∧ e.slot = slot) :
    Call.Finds base key slot terms c ((⟨c, a, r⟩ :: h) :: own) { call with stage } := by
  refine ⟨.next old.comes step, fun hk since => ?_⟩
  have looked := old.comes.looked
  have finds := old.finds hk (since.tail old.comes)
  obtain ⟨k, mode, offer, before⟩ := call
  obtain rfl : k = key := hk
  obtain ⟨e, he, hslot⟩ := entry
  rw [lookup?_cons]
  cases step with
  | observe =>
      obtain entered | ⟨n, found⟩ := finds
      · exact .inl entered
      · exact .inr ⟨n, by rw [found]; rfl⟩
  | find =>
      simp only [Action.perform, he] at performs
      cases performs
      exact .inr ⟨_, by rw [looked.entered rfl, ← hslot]; rfl⟩
  | absent => simp [Action.perform, he] at performs
  | claim =>
      simp only [Action.perform, Store.claim_of_some indexed] at performs
      cases performs
      exact .inr ⟨_, by rw [looked.entered rfl]; rfl⟩
  | _ =>
      obtain entered | ⟨n, found⟩ := finds
      · cases entered
      · exact .inr ⟨n, by rw [found]; rfl⟩

end Kept

theorem standing_kept (base : History) (e : Entry) (p : ProducerId) (terms : Terms) :
    Kept terms (Standing base e p terms) := by
  intro keys calls s c a r calls' keys' s' h taken old
  exact {
    since := old.since.trans (List.suffix_cons _ _)
    producer := old.producer
    entry := Action.entry_kept taken.performs old.entry
    later := old.later_kept taken
    made := old.made_kept taken
    cached := old.cached_kept taken }

theorem findable_kept (base : History) (key : Key) (e : Entry) (terms : Terms) :
    Kept terms (Findable base key e terms) := by
  intro keys calls s c a r calls' keys' s' h taken old
  obtain ⟨since, old⟩ := old
  refine ⟨since.trans (List.suffix_cons _ _), fun calm => ?_⟩
  have grown := History.resets_mono since
  obtain ⟨more, quiet⟩ := History.resets_cons ⟨c, a, r⟩ h
  have still : h.resets = base.resets := by omega
  have quiet := quiet.1 (by omega)
  obtain ⟨indexed, entry, finds⟩ := old still
  have found : s.entryOf? key = some e := Option.bind_eq_some_iff.2 ⟨e.slot, indexed, entry⟩
  refine ⟨(Action.perform_slotOf? taken.performs quiet).1 key e.slot indexed,
    Action.entry_kept taken.performs entry, taken.deeds_kept finds ?_ ?_ ?_⟩
  · intro call comes entered
    exact ⟨comes, fun _ _ => .inl entered⟩
  · intro own call rest stage hcs before step
    exact before.next step taken.performs indexed ⟨e, found, rfl⟩
  · intro own call before running passes
    refine ⟨before.comes.passes running passes, fun hk since => ?_⟩
    rw [before.comes.looked.running running]
    exact before.finds hk (since.tail before.comes)

/-- What becomes of an entry with producer `p` that has nothing cached, as long as nobody resets the
registry. -/
structure Machine.Stands (m : Machine) (key : Key) (e : Entry) (p : ProducerId) : Prop where
  deferred : e.policy.isEager = false
  producer : e.resolution.producer? = some p
  empty : m.store.cachedOf? key = none
  entry : ∀ m', m.Reaches m' → m'.history.resets = m.history.resets →
    m'.store.entryOf? key = some e
  /-- Nothing is cached before a run has succeeded. -/
  cached : ∀ m' inst, m.Reaches m' → m'.history.resets = m.history.resets →
    m'.store.cachedOf? key = some inst →
      e.resolution.isLazy ∧ m'.history.MakesSince m.history e.slot inst
  /-- A call that is made later, and before the next reset or at least with the slot of the entry,
  comes back with the result of a run of the producer that it has made itself, unless its thread may
  not wait, or unless the entry is lazy and a run has succeeded. -/
  again : ∀ m' m'' c mode before result own, m.Reaches m' → m'.step c = some m'' →
    m''.history = ⟨c, .leave mode key before result, ()⟩ :: m'.history →
      (m'.history.deeds c).head? = some own → EnteredSince m.history own →
        m'.history.resets = m.history.resets ∨ (∃ n, lookup? own = some (e.slot, n)) →
          runs own = [(p, result)] ∨
            runs own = [] ∧ e.policy.mode = .async ∧
              result = .error (.blockingInAsyncContext key.name) ∨
            runs own = [] ∧ e.resolution.isLazy ∧
              ∃ inst, result = .ok inst ∧ m'.history.MakesSince m.history e.slot inst

section Ends

variable {base : History} {e : Entry} {p : ProducerId} {terms : Terms} {keys : List Key}
  {calls : ClientId → List Call} {s : Store} {c : ClientId} {h : History}

theorem Standing.comes_back (standing : Standing base e p terms keys calls s h)
    (tenure : Tenure terms keys calls s) {call : Call} {own : List History} {result : Resolved}
    {n : Nat} (hc : call ∈ calls c) (heeds : call.Heeds base e p terms c own)
    (since : EnteredSince base own) (found : lookup? own = some (e.slot, n))
    (ends : call.stage.Ends call.key result) :
    runs own = [(p, result)] ∨
      runs own = [] ∧ e.policy.mode = .async ∧
        result = .error (.blockingInAsyncContext call.key.name) ∨
      runs own = [] ∧ e.resolution.isLazy ∧
        ∃ inst, result = .ok inst ∧ h.MakesSince base e.slot inst := by
  have goes := heeds.goes since n found
  have ran := heeds.comes.ran
  have idle {e : Entry} := ran.idle (e := e)
  have cached := tenure.cached c call hc
  have vacant := Resolution.instance?_of_producer standing.producer
  obtain ⟨key, mode, offer, stage⟩ := call
  cases ends with
  | stored hi =>
      obtain rfl := goes
      cases vacant.symm.trans hi
  | cached =>
      obtain rfl := goes
      obtain none | ⟨p', hp', some⟩ := ran
      · have full := cached _ _ rfl
        obtain ⟨e', he', lazy, -⟩ := tenure.full _ _ full
        cases standing.entry.symm.trans he'
        exact .inr (.inr ⟨none, lazy, _, rfl, standing.cached _ full⟩)
      · cases standing.producer.symm.trans hp'
        exact .inl some
  | fresh | spoiled =>
      obtain rfl := goes
      obtain ⟨p', hp', ran⟩ := ran
      cases standing.producer.symm.trans hp'
      exact .inl ran
  | failed => exact .inl goes
  | held => cases goes
  | awaited awaits =>
      obtain rfl := goes
      exact .inr (.inl ⟨idle rfl vacant, awaits, rfl⟩)

end Ends

section Machines

variable {setting : Setting} {jobs : List (List Demand)} {m m₁ : Machine} {c : ClientId}
  {key : Key} {p : ProducerId} {run : Nat} {o : Outcome} {error : ResolveError} {e : Entry}

/-- The run that has failed was made by the call of an entry, and not before there was one. -/
theorem Taken.fails {terms : Terms} {keys : List Key} {calls : ClientId → List Call} {s : Store}
    {calls' : List Call} {keys' : List Key} {s' : Store}
    (taken : Taken terms keys calls s c (.endRun e.slot key p run o) (.error error) calls' keys' s')
    (he : (s'.slot e.slot).entry = some e) :
    ∃ mode offer rest, calls c = ⟨key, mode, offer, .making e p run⟩ :: rest ∧
      calls' = ⟨key, mode, offer, .made e (.error error)⟩ :: rest := by
  have entry : (s.slot e.slot).entry = some e := by
    rw [← Action.perform_entry taken.performs (by simp) e.slot, he]
  obtain ⟨⟨k, mode, offer, stage⟩, rest, stage', hcs, rfl, step⟩ := taken.own rfl
  have top : (⟨k, mode, offer, stage⟩ : Call) ∈ calls c := by simp [hcs]
  have vacant := taken.before.vacant c _ top
  have known := taken.before.known c _ top
  generalize hslot : e.slot = slot at step entry
  cases step with
  | tried => cases entry.symm.trans (vacant _ rfl)
  | @made e' =>
      cases entry.symm.trans (known e' rfl)
      exact ⟨mode, offer, rest, hcs, rfl⟩

/-- A call that is under way at a step that lets none in was let in before. -/
theorem not_enteredSince {terms : Terms} {me : ClientId} {own : List History} {call : Call}
    {base : History} (comes : call.Comes terms me own) (ho : own ∈ base.deeds me)
    (other : ∀ d mode k offer r h, base ≠ ⟨d, .enter mode k offer, r⟩ :: h) :
    ¬EnteredSince base own := by
  intro since
  obtain ⟨task, h, last⟩ := comes.entry
  obtain ⟨first, last', later⟩ := since
  cases last.symm.trans last'
  have early := History.suffix_of_deeds ho (List.mem_of_getLast? last)
  exact other _ _ _ _ _ _
    (later.eq_of_length (Nat.le_antisymm later.length_le early.length_le))

/-- An entry stands from the moment at which a run of its producer fails. -/
theorem Machine.Reaches.standing (reach : (Machine.start setting jobs).Reaches m)
    (hs : m.step c = some m₁)
    (fails : m₁.history = ⟨c, .endRun e.slot key p run o, .error error⟩ :: m.history)
    (he : m₁.store.entryOf? key = some e) :
    ∃ keys calls, m₁.Conducted (.plain setting.observers none) keys calls (fun _ _ => True) ∧
      Standing m₁.history e p (.plain setting.observers none) keys calls m₁.store m₁.history ∧
        Findable m₁.history key e (.plain setting.observers none) keys calls m₁.store
          m₁.history := by
  obtain ⟨keys, calls, conducted, traced⟩ := reach.traced
  obtain ⟨a, r, calls', keys', taken, history, conducted₁⟩ := conducted.step rfl hs (told_plain _)
  have traced₁ := traced_kept _ taken traced
  rw [← history] at traced₁
  rw [fails] at history
  cases history
  have tenure₁ := conducted₁.tenure
  have entry : (m₁.store.slot e.slot).entry = some e := (Recorded.suits tenure₁ he).2
  obtain ⟨mode, offer, rest, hcs, rfl⟩ := taken.fails entry
  have here : Function.update calls c (⟨key, mode, offer, .made e (.error error)⟩ :: rest) c =
      ⟨key, mode, offer, .made e (.error error)⟩ :: rest := Function.update_self ..
  have hk : keys'[e.slot]? = some key := tenure₁.key_of_slot here _ rfl
  have held (lazy : e.resolution.isLazy) : (m₁.store.slot e.slot).cell = .filling c :=
    (tenure₁.cell_iff here hk).2 (by simp [Stage.cell?, lazy])
  have empty (inst : Instance) : (m₁.store.slot e.slot).cell ≠ .full inst := by
    intro full
    obtain ⟨e', he', lazy, -⟩ := tenure₁.full _ _ full
    cases entry.symm.trans he'
    cases (held lazy).symm.trans full
  have producer : e.resolution.producer? = some p :=
    traced.fits c ⟨key, mode, offer, .making e p run⟩ (by simp [hcs])
  have early (me : ClientId) :=
    (List.forall₂_and_left _ _).2 ⟨fun own ho => ho, traced₁.shows me⟩
  have old {me : ClientId} {own : List History} {call : Call}
      (comes : call.Comes (.plain setting.observers none) me own)
      (ho : own ∈ m₁.history.deeds me) : ¬EnteredSince m₁.history own :=
    not_enteredSince comes ho (by simp [fails])
  refine ⟨keys', _, conducted₁, ⟨List.suffix_refl _, producer, entry, ?_, ?_, ?_⟩,
    List.suffix_refl _, fun _ => ⟨?_, entry, ?_⟩⟩
  · exact fun me => (early me).imp fun own call both =>
      ⟨both.2, fun since => absurd since (old both.2 both.1)⟩
  · intro me call hc inst made lazy
    have cell := (tenure₁.cell e.slot me).2 ⟨call, hc, by simp [made, Stage.cell?, lazy]⟩
    obtain rfl : c = me := Cell.filling.inj ((held lazy).symm.trans cell)
    rw [here] at hc
    cases hc with
    | head => cases made
    | tail _ hc =>
        refine absurd ?_ (tenure₁.slot_ne_of_mem_rest here hk hc)
        rw [made]
        rfl
  · intro inst full
    exact absurd full (empty inst)
  · obtain ⟨id, indexed, there⟩ := Option.bind_eq_some_iff.1 he
    obtain ⟨k, -, suits⟩ := tenure₁.entry id e there
    rw [suits.slot]
    exact indexed
  · exact fun me => (early me).imp fun own call both =>
      ⟨both.2, fun _ since => absurd since (old both.2 both.1)⟩

theorem Resolution.deferred_of_producer {r : Resolution} (hp : r.producer? = some p) :
    r.policy.isEager = false := by
  cases r with
  | singleton | singletonAsync => cases hp
  | _ => rfl

/-- A registration whose producer fails stands, and calls that are made later try again. -/
theorem Machine.Reaches.stands (reach : (Machine.start setting jobs).Reaches m)
    (hs : m.step c = some m₁)
    (fails : m₁.history = ⟨c, .endRun e.slot key p run o, .error error⟩ :: m.history)
    (he : m₁.store.entryOf? key = some e) : m₁.Stands key e p := by
  obtain ⟨keys, calls, conducted, standing, findable⟩ := reach.standing hs fails he
  have reach₁ := reach.step hs
  have later {m' : Machine} (on : m₁.Reaches m') :=
    conducted.reaches rfl on (told_plain _)
      (J := fun keys calls s h =>
        Standing m₁.history e p (.plain setting.observers none) keys calls s h ∧
          Findable m₁.history key e (.plain setting.observers none) keys calls s h)
      ⟨standing, findable⟩ (Kept.and (standing_kept _ _ _ _) (findable_kept _ _ _ _))
  have sound := (Recorded.suits conducted.tenure he).1.sound
  refine ⟨sound.policy ▸ Resolution.deferred_of_producer standing.producer, standing.producer, ?_,
    fun m' on calm => reach₁.entryOf?_kept on calm he, ?_, ?_⟩
  · simp only [Store.cachedOf?, he, Option.bind_some]
    cases hc : (m₁.store.slot e.slot).cell with
    | full inst =>
        obtain ⟨_, _, h, there, since⟩ := standing.cached inst hc
        have longer := (there.trans since).length_le
        simp at longer
    | empty | filling => rfl
  · intro m' inst on calm cached
    obtain ⟨keys', calls', conducted', standing', -⟩ := later on
    simp only [Store.cachedOf?, reach₁.entryOf?_kept on calm he, Option.bind_some] at cached
    cases hc : (m'.store.slot e.slot).cell with
    | full inst' =>
        rw [hc] at cached
        cases cached
        obtain ⟨e', he', lazy, -⟩ := conducted'.tenure.full _ _ hc
        cases standing'.entry.symm.trans he'
        exact ⟨lazy, standing'.cached _ hc⟩
    | empty | filling =>
        rw [hc] at cached
        cases cached
  · intro m' m'' d mode before result own on hs' leaves ho since how
    obtain ⟨keys', calls', conducted', standing', -, findable'⟩ := later on
    obtain ⟨a, r, calls'', keys'', taken, history, -⟩ := conducted'.step rfl hs' (told_plain _)
    rw [leaves] at history
    cases history
    obtain ⟨call, hcs, rfl, ends⟩ := taken.leaves
    have heeds := standing'.later d
    have finds (calm : m'.history.resets = m₁.history.resets) := (findable' calm).2.2 d
    rw [hcs] at heeds finds
    generalize m'.history.deeds d = ds at heeds finds ho
    cases heeds with
    | cons first _ =>
        cases ho
        have found : ∃ n, lookup? own = some (e.slot, n) := by
          obtain calm | found := how
          · cases finds calm with
            | cons finds _ =>
                obtain entered | found := finds.finds rfl since
                · rw [entered] at ends
                  cases ends
                · exact found
          · exact found
        obtain ⟨n, found⟩ := found
        exact standing'.comes_back conducted'.tenure (by simp [hcs]) first since found ends

end Machines

end Wiring.Registry
