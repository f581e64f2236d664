import Wiring.Proofs.Registry.Record

/-!
Shared entries are made once. Where the entry of a key is shared, only a call that holds the gate
or the cell runs a producer for it, and once a run has made an instance, that instance is kept by
the call, by the entry or by the cell, and nobody gets as far as running a producer again.
-/
namespace Wiring.Registry

namespace History

def made (key : Key) : History → List Instance
  | [] => []
  | ⟨_, .endRun _ k _ _ _, .ok inst⟩ :: h => if k = key then inst :: made key h else made key h
  | _ :: h => made key h

def returned (key : Key) : History → List Instance
  | [] => []
  | ⟨_, .leave _ k _ (.ok inst), _⟩ :: h =>
      if k = key then inst :: returned key h else returned key h
  | _ :: h => returned key h

end History

def Cell.instance? : Cell → Option Instance
  | .full inst => some inst
  | .empty | .filling _ => none

/-- The instance that all resolutions of `key` share. -/
def Store.kept? (s : Store) (key : Key) : Option Instance :=
  (s.entryOf? key).bind fun e => e.resolution.instance? <|> (s.slot e.slot).cell.instance?

def Stage.yield? : Stage → Option Instance
  | .tried _ (.ok inst) | .made _ (.ok inst) => some inst
  | _ => none

def Store.Shares (s : Store) (key : Key) : Prop :=
  ∀ e, s.entryOf? key = some e → e.policy.isShared

theorem Entry.Sound.lazy_of_shared {e : Entry} (sound : e.Sound) (shared : e.policy.isShared)
    (hp : e.resolution.producer?.isSome) : e.resolution.isLazy := by
  rw [← sound.policy] at shared
  cases hr : e.resolution with
  | lazySingleton | lazySingletonAsync => rfl
  | factory | factoryAsync => simp [hr, Resolution.policy, Policy.isShared] at shared
  | singleton | singletonAsync =>
      simp [hr, Resolution.producer?, Resolution.maker?] at hp

section Kept

variable {terms : Terms} {keys : List Key} {calls : ClientId → List Call} {s : Store} {h : History}
  {c : ClientId} {x : Call}

theorem Recorded.kept?_of_stored (rec : Recorded keys calls s h) (t : Tenure terms keys calls s)
    (hx : x ∈ calls c) (e : Entry) (inst : Instance) (he : x.stage.entry? = some e)
    (hi : e.resolution.instance? = some inst) : s.kept? x.key = some inst := by
  simp [Store.kept?, rec.entryOf?_of_known t hx e he, hi]

theorem Recorded.kept?_of_cached (rec : Recorded keys calls s h) (t : Tenure terms keys calls s)
    (hx : x ∈ calls c) (e : Entry) (inst : Instance)
    (hc : x.stage.cached? = some (e, inst)) : s.kept? x.key = some inst := by
  have he := Stage.entry?_of_cached? hc
  have full := t.cached c x hx e inst hc
  obtain ⟨e', he', lazy, -⟩ := t.full e.slot inst full
  cases (t.known c x hx e he).symm.trans he'
  simp [Store.kept?, rec.entryOf?_of_known t hx e he, Resolution.instance?_of_lazy lazy, full,
    Cell.instance?]

end Kept

namespace Taken

variable {terms : Terms} {keys : List Key} {calls : ClientId → List Call} {s : Store}
  {c : ClientId} {a : Action} {r : a.Response} {calls' : List Call} {keys' : List Key} {s' : Store}
  {h : History}

/-- Whoever writes a cell without having claimed it holds it. -/
theorem cell_of_write (taken : Taken terms keys calls s c a r calls' keys' s') {slot : SlotId}
    (ha : (∃ inst, a = .fillCell slot inst) ∨ a = .freeCell slot) :
    (s.slot slot).cell = .filling c := by
  have move := taken.move
  generalize hcs : calls c = cs at move
  cases move with
  | @own call rest _ _ _ next =>
      obtain ⟨key, mode, offer, stage⟩ := call
      have held : stage.cell? = some slot := by
        cases ha with
        | inl fills =>
            obtain ⟨inst, rfl⟩ := fills
            cases next with
            | fill lazy => simp [Stage.cell?, lazy]
        | inr frees =>
            subst frees
            cases next with
            | unfill lazy => simp [Stage.cell?, lazy]
      exact (taken.before.cell slot c).2 ⟨_, hcs ▸ List.mem_cons_self, held⟩
  | aside _ h =>
      cases ha with
      | inl fills =>
          obtain ⟨inst, rfl⟩ := fills
          cases h
      | inr frees =>
          subst frees
          cases h
  | _ => simp at ha

theorem full_kept (taken : Taken terms keys calls s c a r calls' keys' s') {id : SlotId}
    {inst : Instance} (full : (s.slot id).cell = .full inst) :
    (s'.slot id).cell = .full inst := by
  have hp := taken.performs
  generalize trailOf calls' = t' at hp
  have other {slot : SlotId} {f : Slot → Slot} (filling : (s.slot slot).cell = .filling c) :
      ((s.update slot f).slot id).cell = .full inst := by
    have hne : id ≠ slot := by
      intro he
      subst he
      cases full.symm.trans filling
    rw [s.slot_update_of_ne hne, full]
  cases a with
  | fillCell slot i =>
      cases hp
      exact other (taken.cell_of_write (.inl ⟨i, rfl⟩))
  | freeCell slot =>
      cases hp
      exact other (taken.cell_of_write (.inr rfl))
  | claimCell slot =>
      simp only [Action.perform] at hp
      split at hp
      · cases hp
        exact full
      · cases hp
      · next hempty =>
          cases hp
          have hne : id ≠ slot := by
            intro he
            subst he
            cases full.symm.trans hempty
          rw [s.slot_update_of_ne hne, full]
  | _ =>
      rw [Action.perform_view Slot.cell hp, full]
      intro slot f writes σ
      cases writes <;> rfl

theorem kept?_kept (taken : Taken terms keys calls s c a r calls' keys' s')
    (calm : a ≠ .clearEntries) (rec : Recorded keys calls s h) {key : Key} {inst : Instance}
    (hi : s.kept? key = some inst) : s'.kept? key = some inst := by
  obtain ⟨e, he, hi⟩ := Option.bind_eq_some_iff.1 hi
  have he' := taken.entryOf?_kept calm rec.indexed he
  simp only [Store.kept?, he', Option.bind_some]
  cases hr : e.resolution.instance? with
  | some i =>
      rw [hr] at hi
      exact hi
  | none =>
      rw [hr] at hi
      simp only [Option.none_or, Option.orElse_eq_orElse, Option.orElse_eq_or] at hi ⊢
      cases hc : (s.slot e.slot).cell with
      | full i =>
          rw [taken.full_kept hc, ← hi, hc]
      | empty | filling => simp [hc, Cell.instance?] at hi

end Taken

/-- A call that alone may run a producer of a key: it holds the gate and there is no entry, or it
holds the cell of the entry. -/
def Stage.Makes (s : Stage) : Prop := s.vacancy?.isSome ∨ s.cell?.isSome

def Spent (key : Key) (calls : ClientId → List Call) (s : Store) : Prop :=
  (s.kept? key).isSome ∨ ∃ c, ∃ x ∈ calls c, x.key = key ∧ x.stage.yield?.isSome

section Makers

variable {terms : Terms} {keys : List Key} {calls : ClientId → List Call} {s : Store} {h : History}
  {c c' : ClientId} {x y : Call}

theorem Recorded.maker_unique (rec : Recorded keys calls s h) (t : Tenure terms keys calls s)
    (hx : x ∈ calls c) (hy : y ∈ calls c') (hk : x.key = y.key) (mx : x.stage.Makes)
    (my : y.stage.Makes) : c = c' ∧ x = y := by
  simp only [Stage.Makes, Option.isSome_iff_exists] at mx my
  have clash {x y : Call} {c c' : ClientId} (hx : x ∈ calls c) (hy : y ∈ calls c')
      (hk : x.key = y.key) {i j : SlotId} (hi : x.stage.vacancy? = some i)
      (hj : y.stage.cell? = some j) : False := by
    obtain ⟨e, he, -⟩ := Stage.entry?_of_cell? hj
    have absent := rec.entryOf?_of_vacant t hx hi
    have present := rec.entryOf?_of_known t hy e he
    cases (hk ▸ absent).symm.trans present
  cases mx with
  | inl vacant =>
      obtain ⟨i, hi⟩ := vacant
      cases my with
      | inl vacant =>
          obtain ⟨j, hj⟩ := vacant
          exact rec.gate_unique t hx hy hk (Stage.gate?_of_vacancy? hi) (Stage.gate?_of_vacancy? hj)
      | inr cell =>
          obtain ⟨j, hj⟩ := cell
          exact (clash hx hy hk hi hj).elim
  | inr cell =>
      obtain ⟨i, hi⟩ := cell
      cases my with
      | inl vacant =>
          obtain ⟨j, hj⟩ := vacant
          exact (clash hy hx hk.symm hj hi).elim
      | inr cell =>
          obtain ⟨j, hj⟩ := cell
          exact rec.cell_unique t hx hy hk hi hj

theorem Recorded.lazy_of_shares (rec : Recorded keys calls s h) (t : Tenure terms keys calls s)
    (hx : x ∈ calls c) (shares : s.Shares x.key) (e : Entry) (he : x.stage.entry? = some e)
    (hp : e.resolution.producer?.isSome) : e.resolution.isLazy := by
  have there := rec.entryOf?_of_known t hx e he
  exact (Recorded.suits t there).1.sound.lazy_of_shared (shares e there) hp

/-- Where the entry is shared, a call that runs a producer has the right to do so alone. -/
theorem Recorded.makes_of_run (rec : Recorded keys calls s h) (t : Tenure terms keys calls s)
    (hx : x ∈ calls c) (shares : s.Shares x.key) (hr : x.stage.run?.isSome) : x.stage.Makes := by
  have fits := rec.fits c x hx
  have lazy := rec.lazy_of_shares t hx shares
  obtain ⟨key, mode, offer, stage⟩ := x
  cases stage with
  | trying => exact .inl rfl
  | making e p run =>
      have hl := lazy e rfl (Option.isSome_of_eq_some fits)
      exact .inr (by simp [Stage.cell?, hl])
  | _ => simp [Stage.run?] at hr

theorem Recorded.makes_of_yield (rec : Recorded keys calls s h) (t : Tenure terms keys calls s)
    (hx : x ∈ calls c) (shares : s.Shares x.key) (hy : x.stage.yield?.isSome) :
    x.stage.Makes := by
  have fits := rec.fits c x hx
  have lazy := rec.lazy_of_shares t hx shares
  obtain ⟨key, mode, offer, stage⟩ := x
  cases stage with
  | tried => exact .inl rfl
  | made e r =>
      have hl := lazy e rfl fits
      exact .inr (by simp [Stage.cell?, hl])
  | _ => simp [Stage.yield?] at hy

theorem Recorded.openRuns_length (rec : Recorded keys calls s h) (t : Tenure terms keys calls s)
    {key : Key} (shares : s.Shares key) : (h.openRuns key).length ≤ 1 := by
  have running := rec.openRuns key
  have apart := rec.apart key
  generalize h.openRuns key = runs at running apart
  match runs, running, apart with
  | [], _, _ => exact Nat.zero_le _
  | [_], _, _ => exact Nat.le_refl _
  | (c, p, run) :: (c', p', run') :: _, running, apart =>
      obtain ⟨x, hx, hxk, hxr⟩ := (running c p run).1 (by simp)
      obtain ⟨y, hy, hyk, hyr⟩ := (running c' p' run').1 (by simp)
      have mx := rec.makes_of_run t hx (hxk ▸ shares) (Option.isSome_of_eq_some hxr)
      have my := rec.makes_of_run t hy (hyk ▸ shares) (Option.isSome_of_eq_some hyr)
      obtain ⟨rfl, -⟩ := rec.maker_unique t hx hy (hxk.trans hyk.symm) mx my
      simp at apart

/-- A call that may make an instance has not made one yet, nor is one kept. -/
theorem Recorded.not_spent (rec : Recorded keys calls s h) (t : Tenure terms keys calls s)
    (hx : x ∈ calls c) (shares : s.Shares x.key) (mx : x.stage.Makes)
    (hy : x.stage.yield? = none) (lazy : ∀ e, x.stage.entry? = some e → e.resolution.isLazy) :
    ¬Spent x.key calls s := by
  intro spent
  cases spent with
  | inl kept =>
      obtain ⟨inst, kept⟩ := Option.isSome_iff_exists.1 kept
      obtain ⟨e, he, kept⟩ := Option.bind_eq_some_iff.1 kept
      cases mx with
      | inl vacant =>
          obtain ⟨id, vacant⟩ := Option.isSome_iff_exists.1 vacant
          cases he.symm.trans (rec.entryOf?_of_vacant t hx vacant)
      | inr cell =>
          obtain ⟨id, cell⟩ := Option.isSome_iff_exists.1 cell
          obtain ⟨e', he', rfl, -⟩ := Stage.entry?_of_cell? cell
          cases he.symm.trans (rec.entryOf?_of_known t hx e' he')
          have filling := (t.cell e.slot c).2 ⟨x, hx, cell⟩
          simp [Resolution.instance?_of_lazy (lazy e he'), filling, Cell.instance?] at kept
  | inr made =>
      obtain ⟨c', y, hy', hk, yields⟩ := made
      have my := rec.makes_of_yield t hy' (hk ▸ shares) yields
      obtain ⟨-, rfl⟩ := rec.maker_unique t hx hy' hk.symm mx my
      simp [hy] at yields

end Makers

namespace Taken

variable {terms : Terms} {keys : List Key} {calls : ClientId → List Call} {s : Store}
  {c : ClientId} {a : Action} {r : a.Response} {calls' : List Call} {keys' : List Key} {s' : Store}
  {h : History} {key : Key}

theorem shares (taken : Taken terms keys calls s c a r calls' keys' s')
    (calm : a ≠ .clearEntries) (rec : Recorded keys calls s h) (shares : s'.Shares key) :
    s.Shares key :=
  fun e he => shares e (taken.entryOf?_kept calm rec.indexed he)

/-- What has been made is not lost. -/
theorem spent (taken : Taken terms keys calls s c a r calls' keys' s')
    (calm : a ≠ .clearEntries) (rec : Recorded keys calls s h) (shares : s.Shares key)
    (old : Spent key calls s) : Spent key (Function.update calls c calls') s' := by
  cases old with
  | inl kept =>
      obtain ⟨inst, kept⟩ := Option.isSome_iff_exists.1 kept
      exact .inl (Option.isSome_of_eq_some (taken.kept?_kept calm rec kept))
  | inr right =>
      obtain ⟨c', x, hx, hk, hy⟩ := right
      have rec' := taken.recorded calm rec
      have lazy := rec.lazy_of_shares taken.before hx (hk ▸ shares)
      have fits := rec.fits c' x hx
      cases taken.fate hx with
      | stays there => exact .inr ⟨c', x, there, hk, hy⟩
      | steps _ next there =>
          obtain ⟨k, mode, offer, old⟩ := x
          obtain rfl : k = key := hk
          cases next with
          | publishMade suits hi =>
              have stored := rec'.kept?_of_stored taken.after there _ _ rfl hi
              exact .inl (Option.isSome_of_eq_some stored)
          | fill =>
              have cached := rec'.kept?_of_cached taken.after there _ _ rfl
              exact .inl (Option.isSome_of_eq_some cached)
          | observe => exact .inr ⟨c', _, there, rfl, hy⟩
          | _ => simp [Stage.yield?] at hy
      | ends _ comes_back =>
          obtain ⟨k, mode, offer, old⟩ := x
          cases old with
          | tried => cases comes_back
          | made e r =>
              have hl := lazy e rfl fits
              cases comes_back with
              | fresh hn | spoiled hn => simp [hl] at hn
          | _ => simp [Stage.yield?] at hy

theorem made (taken : Taken terms keys calls s c a r calls' keys' s') :
    History.made key (⟨c, a, r⟩ :: h) = h.made key ∨
      Spent key (Function.update calls c calls') s' := by
  cases a with
  | endRun slot k p run outcome =>
      have move := taken.move
      generalize calls c = cs at move
      cases r with
      | error e => exact .inl rfl
      | ok inst =>
          by_cases hk : k = key
          · subst hk
            right
            cases move with
            | @own call rest _ _ stage n =>
                have top : { call with stage } ∈
                    Function.update calls c ({ call with stage } :: rest) c := by simp
                obtain ⟨k', mode, offer, old⟩ := call
                cases n with
                | tried | made => exact .inr ⟨c, _, top, rfl, rfl⟩
            | aside _ ha => cases ha
          · exact .inl (by simp [History.made, hk])
  | _ => exact .inl rfl

/-- A run that begins is the first one to make the instance that is shared. -/
theorem begin {slot : SlotId} {p : ProducerId} {r : Nat}
    (taken : Taken terms keys calls s c (.beginRun slot key p) r calls' keys' s')
    (rec : Recorded keys calls s h) (shares : s.Shares key) : ¬Spent key calls s := by
  have move := taken.move
  generalize hcs : calls c = cs at move
  cases move with
  | @own call rest _ _ _ n =>
      have top : call ∈ calls c := by simp [hcs]
      have lazy := rec.lazy_of_shares taken.before top
      have fits := rec.fits c call top
      have not_spent := rec.not_spent taken.before top
      obtain ⟨k, mode, offer, stage⟩ := call
      cases n with
      | attempt => exact not_spent shares (.inl rfl) rfl (by simp [Stage.entry?])
      | makeFresh hl hp =>
          have := lazy shares _ rfl (Option.isSome_of_eq_some hp)
          simp [hl] at this
      | makeShared hl =>
          apply not_spent shares (.inr rfl) rfl
          intro e he
          cases he
          exact hl
  | aside _ ha => cases ha

/-- A call comes back with the instance that is kept. -/
theorem leave {mode : Mode} {before : List String} {inst : Instance} {r : Unit}
    (taken : Taken terms keys calls s c (.leave mode key before (.ok inst)) r calls' keys' s')
    (rec : Recorded keys calls s h) (shares : s.Shares key) : s.kept? key = some inst := by
  have move := taken.move
  generalize hcs : calls c = cs at move
  cases move with
  | @own call _ _ _ _ n =>
      obtain ⟨k, mode, offer, stage⟩ := call
      cases n
  | @leave call rest _ he =>
      have top : call ∈ calls c := by simp [hcs]
      have lazy := rec.lazy_of_shares taken.before top
      have fits := rec.fits c call top
      have stored := rec.kept?_of_stored taken.before top
      have cached := rec.kept?_of_cached taken.before top
      obtain ⟨k, mode, offer, stage⟩ := call
      cases he with
      | stored hi => exact stored _ inst rfl hi
      | cached => exact cached _ inst rfl
      | fresh hn =>
          have := lazy shares _ rfl fits
          simp [hn] at this
  | aside _ ha => cases ha

end Taken

/-- What is so of a key for as long as its entry, if it has one, is shared. -/
structure Flight (key : Key) (calls : ClientId → List Call) (s : Store) (h : History) : Prop where
  single : ∀ h', h' <:+ h → (History.openRuns key h').length ≤ 1
  spent : h.made key ≠ [] → Spent key calls s
  last : ∀ c slot p run h', ⟨c, .beginRun slot key p, run⟩ :: h' <:+ h → History.made key h' = []
  agreed : ∀ inst ∈ h.returned key, s.kept? key = some inst

theorem flight_kept (terms : Terms) (key : Key) :
    KeptCalm terms fun _ calls s h => s.Shares key → Flight key calls s h := by
  intro keys calls s c a r calls' keys' s' h taken calm rec old shares
  have before := taken.shares calm rec shares
  have flight := old before
  have rec' := taken.recorded calm rec
  refine ⟨?_, ?_, ?_, ?_⟩
  · intro h' hs
    cases List.suffix_cons_iff.1 hs with
    | inl eq =>
        subst eq
        exact rec'.openRuns_length taken.after shares
    | inr hs => exact flight.single h' hs
  · intro made
    cases taken.made with
    | inl same => exact taken.spent calm rec before (flight.spent (same ▸ made))
    | inr spent => exact spent
  · intro c' slot p run h' hs
    cases List.suffix_cons_iff.1 hs with
    | inl eq =>
        cases eq
        by_contra made
        exact taken.begin rec before (flight.spent made)
    | inr hs => exact flight.last c' slot p run h' hs
  · intro inst hi
    have kept {i : Instance} (hk : s.kept? key = some i) := taken.kept?_kept calm rec hk
    cases a with
    | leave mode k before' result =>
        cases result with
        | ok i =>
            by_cases hk : k = key
            · subst hk
              simp only [History.returned, if_true, List.mem_cons] at hi
              cases hi with
              | inl eq =>
                  subst eq
                  exact kept (taken.leave rec before)
              | inr hi => exact kept (flight.agreed inst hi)
            · simp only [History.returned, if_neg hk] at hi
              exact kept (flight.agreed inst hi)
        | error e => exact kept (flight.agreed inst hi)
    | _ => exact kept (flight.agreed inst hi)

/-- Single flight. Wherever clients get to in a run without reset: if the entry of a key is shared,
then no two runs of producers for the key have ever been open at once, no run has begun after one
had made an instance, and all calls for the key that came back with an instance came back with the
same one. -/
theorem single_flight {setting : Setting} {jobs : List (List Demand)} {m : Machine}
    (reach : (Machine.start setting jobs).Reaches m) (calm : m.history.Calm) {key : Key} {e : Entry}
    (published : m.store.entryOf? key = some e) (shared : e.policy.isShared) :
    (∀ h, h <:+ m.history → (History.openRuns key h).length ≤ 1) ∧
      (∀ c slot p run h, ⟨c, .beginRun slot key p, run⟩ :: h <:+ m.history →
        History.made key h = []) ∧
      ∀ inst ∈ m.history.returned key, ∀ inst' ∈ m.history.returned key, inst = inst' := by
  have start : (Store.empty).Shares key → Flight key (fun _ => []) .empty [] := by
    intro _
    refine ⟨?_, ?_, ?_, ?_⟩
    · intro h' hs
      cases List.suffix_nil.1 hs
      exact Nat.zero_le _
    · simp [History.made]
    · simp
    · simp [History.returned]
  obtain ⟨keys, calls, -, -, flight⟩ := reach.recorded calm start (flight_kept _ key)
  have shares : m.store.Shares key := by
    intro e' he
    cases published.symm.trans he
    exact shared
  have flight := flight shares
  refine ⟨flight.single, flight.last, ?_⟩
  intro inst hi inst' hi'
  exact Option.some.inj ((flight.agreed inst hi).symm.trans (flight.agreed inst' hi'))

def loggerKey : Key := ⟨"app::Logger", "Logger"⟩

def loggerSetting : Setting := ⟨1, fun _ => ⟨.lazySingleton, fun _ _ => .finish (.ok ⟨none, []⟩)⟩⟩

def loggerJobs : List (List Demand) :=
  [[⟨.inl (.resolve loggerKey), .plain⟩], [⟨.inl (.resolve loggerKey), .plain⟩]]

theorem two_clients_share_a_logger :
    ∃ m e, (Machine.start loggerSetting loggerJobs).Reaches m ∧ m.history.Calm ∧
      m.store.entryOf? loggerKey = some e ∧ e.policy.isShared ∧
      (m.history.returned loggerKey).length = 2 ∧
      (∀ h, h <:+ m.history → (History.openRuns loggerKey h).length ≤ 1) ∧
      (∀ c slot p run h, ⟨c, .beginRun slot loggerKey p, run⟩ :: h <:+ m.history →
        History.made loggerKey h = []) ∧
      ∀ inst ∈ m.history.returned loggerKey, ∀ inst' ∈ m.history.returned loggerKey,
        inst = inst' := by
  obtain ⟨m, reach, calm, shared, twice⟩ := Machine.exists_of_follow
    (m := Machine.start loggerSetting loggerJobs)
    [0, 0, 0, 1, 1, 1, 0, 1, 0, 0, 0, 0, 1, 1, 1, 0, 0, 0, 0, 0, 0, 1, 0, 1]
    (P := fun m => m.history.Calm ∧ (m.store.entryOf? loggerKey).any (·.policy.isShared) ∧
      (m.history.returned loggerKey).length = 2) (by decide +kernel)
  obtain ⟨e, published, shared⟩ := (Option.any_eq_true _ _).1 shared
  exact ⟨m, e, reach, calm, published, shared, twice, single_flight reach calm published shared⟩

end Wiring.Registry
