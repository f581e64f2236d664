import Wiring.Proofs.Registry.Requesting
import Wiring.Proofs.Registry.Tenure.Step

/-!
What machines reach. Clients take their steps in any order, each keeps to its conduct, and what is
true at the start and kept by every step that `Move` lists is true of every machine that is
reached.
-/
namespace Wiring.Registry

inductive Machine.Reaches (m₀ : Machine) : Machine → Prop
  | start : m₀.Reaches m₀
  | step {m m' : Machine} {c : ClientId} (h : m₀.Reaches m) (hs : m.step c = some m') :
      m₀.Reaches m'

theorem Machine.Reaches.trans {m₀ m m' : Machine} (h : m₀.Reaches m) (h' : m.Reaches m') :
    m₀.Reaches m' := by
  induction h' with
  | start => exact h
  | step _ hs ih => exact .step ih hs

theorem Machine.step_cases {m m' : Machine} {c : ClientId} (h : m.step c = some m') :
    ∃ trail a next r trail' store, m.clients[c]? = some ⟨trail, .step a next⟩ ∧
      a.perform c trail m.store = some (r, trail', store) ∧
      m' = ⟨m.clients.set c ⟨trail', next r⟩, store, ⟨c, a, r⟩ :: m.history⟩ := by
  unfold Machine.step at h
  split at h
  · next trail a next hc =>
      cases hp : a.perform c trail m.store with
      | none => simp [hp] at h
      | some result =>
          obtain ⟨r, trail', store⟩ := result
          simp only [hp, Option.some.injEq] at h
          exact ⟨trail, a, next, r, trail', store, hc, hp, h.symm⟩
  · cases h

theorem Machine.perform_of_stuck {m : Machine} {c : ClientId} {trail : Trail} {a : Action}
    {next : a.Response → Program (List Reply)} (hc : m.clients[c]? = some ⟨trail, .step a next⟩)
    (hs : m.step c = none) : a.perform c trail m.store = none := by
  unfold Machine.step at hs
  rw [hc] at hs
  split at hs
  · next eq =>
      cases eq
      split at hs
      · cases hs
      · assumption
  · next none => exact absurd rfl (none _ _ _)

theorem Machine.step_self {m m' : Machine} {c : ClientId} {trail : Trail} {a : Action}
    {next : a.Response → Program (List Reply)} (hc : m.clients[c]? = some ⟨trail, .step a next⟩)
    (hs : m.step c = some m') :
    ∃ r trail', a.perform c trail m.store = some (r, trail', m'.store) ∧
      m'.clients[c]? = some ⟨trail', next r⟩ := by
  obtain ⟨trail₀, a₀, next₀, r, trail', store, hc₀, hp, rfl⟩ := Machine.step_cases hs
  cases hc.symm.trans hc₀
  refine ⟨r, trail', hp, ?_⟩
  simp [List.getElem?_set_self (List.getElem?_eq_some_iff.1 hc).1]

theorem Machine.step_other {m m' : Machine} {c c' : ClientId} (hne : c' ≠ c)
    (hs : m.step c' = some m') : m'.clients[c]? = m.clients[c]? := by
  obtain ⟨_, _, _, _, _, _, -, -, rfl⟩ := Machine.step_cases hs
  exact List.getElem?_set_ne hne

/-- Machine `m'` is reached from `m` where client `c` takes `n` steps and others any number. -/
inductive Machine.Takes (m : Machine) (c : ClientId) : Nat → Machine → Prop
  | start : m.Takes c 0 m
  | own {n : Nat} {m' m'' : Machine} (h : m.Takes c n m') (hs : m'.step c = some m'') :
      m.Takes c (n + 1) m''
  | other {n : Nat} {m' m'' : Machine} {c' : ClientId} (h : m.Takes c n m') (hc : c' ≠ c)
      (hs : m'.step c' = some m'') : m.Takes c n m''

theorem Machine.Takes.reaches {m m' : Machine} {c : ClientId} {n : Nat} (h : m.Takes c n m') :
    m.Reaches m' := by
  induction h with
  | start => exact .start
  | own _ hs ih | other _ _ hs ih => exact .step ih hs

/-- Others do not touch what a client has left to do. -/
theorem Machine.Takes.none {m m' : Machine} {c : ClientId} (h : m.Takes c 0 m') :
    m'.clients[c]? = m.clients[c]? := by
  generalize hn : 0 = n at h
  induction h with
  | start => rfl
  | own => cases hn
  | other _ hc hs ih => exact (Machine.step_other hc hs).trans (ih hn)

theorem Machine.Takes.first {m m' : Machine} {c : ClientId} {n : Nat} (h : m.Takes c (n + 1) m') :
    ∃ m₁ m₂, m.Reaches m₁ ∧ m₁.clients[c]? = m.clients[c]? ∧ m₁.step c = some m₂ ∧
      m₂.Takes c n m' := by
  generalize hk : n + 1 = k at h
  induction h generalizing n with
  | start => cases hk
  | @own k m' m'' h hs ih =>
      cases hk
      cases k with
      | zero => exact ⟨m', m'', h.reaches, h.none, hs, .start⟩
      | succ n =>
          obtain ⟨m₁, m₂, reach, same, first, rest⟩ := ih rfl
          exact ⟨m₁, m₂, reach, same, first, .own rest hs⟩
  | other h hc hs ih =>
      obtain ⟨m₁, m₂, reach, same, first, rest⟩ := ih hk
      exact ⟨m₁, m₂, reach, same, first, .other rest hc hs⟩

theorem Machine.Takes.uncons {m m' : Machine} {c : ClientId} {n : Nat} {trail : Trail} {a : Action}
    {next : a.Response → Program (List Reply)} (h : m.Takes c (n + 1) m')
    (hc : m.clients[c]? = some ⟨trail, .step a next⟩) :
    ∃ m₁ m₂ r trail', m.Reaches m₁ ∧ m₁.Reaches m' ∧
      a.perform c trail m₁.store = some (r, trail', m₂.store) ∧
        m₂.clients[c]? = some ⟨trail', next r⟩ ∧ m.Reaches m₂ ∧ m₂.Takes c n m' := by
  obtain ⟨m₁, m₂, reach, same, hs, rest⟩ := h.first
  obtain ⟨r, trail', hp, hc'⟩ := Machine.step_self (same.trans hc) hs
  exact ⟨m₁, m₂, r, trail', reach, (Machine.Reaches.step .start hs).trans rest.reaches, hp, hc',
    .step reach hs, rest⟩

theorem Machine.Reaches.suffix {m m' : Machine} (h : m.Reaches m') : m.history <:+ m'.history := by
  induction h with
  | start => exact List.suffix_refl _
  | step _ hs ih =>
      obtain ⟨trail, a, next, r, trail', store, -, -, rfl⟩ := Machine.step_cases hs
      exact ih.trans (List.suffix_cons _ _)

theorem Machine.Reaches.moment {m₀ m : Machine} (reach : m₀.Reaches m) {p : Performed}
    {h : History} (there : p :: h <:+ m.history) (new : ¬p :: h <:+ m₀.history) :
    ∃ m₁ m₂, m₀.Reaches m₁ ∧ m₁.step p.client = some m₂ ∧ m₁.history = h ∧
      m₂.history = p :: h ∧ m₂.Reaches m := by
  induction reach with
  | start => exact absurd there new
  | @step m m' c reach hs ih =>
      have eq : ∃ a r, m'.history = ⟨c, a, r⟩ :: m.history := by
        obtain ⟨trail, a, next, r, trail', store, -, -, rfl⟩ := Machine.step_cases hs
        exact ⟨a, r, rfl⟩
      obtain ⟨a, r, eq⟩ := eq
      rw [eq] at there
      cases List.suffix_cons_iff.1 there with
      | inl same =>
          cases same
          exact ⟨m, m', reach, hs, rfl, eq, .start⟩
      | inr before =>
          obtain ⟨m₁, m₂, reach₁, hs₁, h₁, h₂, later⟩ := ih before
          exact ⟨m₁, m₂, reach₁, hs₁, h₁, h₂, later.trans (.step .start hs)⟩

def Machine.follow (m : Machine) : List ClientId → Option Machine
  | [] => some m
  | c :: rest => (m.step c).bind fun m' => m'.follow rest

theorem Machine.reaches_of_follow {m m' : Machine} {order : List ClientId}
    (h : m.follow order = some m') : m.Reaches m' := by
  induction order generalizing m with
  | nil =>
      cases h
      exact .start
  | cons c rest ih =>
      obtain ⟨m₁, hs, h⟩ := Option.bind_eq_some_iff.1 h
      exact (Machine.Reaches.step .start hs).trans (ih h)

theorem Machine.exists_of_follow {m : Machine} (order : List ClientId) {P : Machine → Prop}
    [DecidablePred P] (h : (m.follow order).any fun m' => P m') : ∃ m', m.Reaches m' ∧ P m' := by
  cases hm : m.follow order with
  | none => simp [hm] at h
  | some m' =>
      rw [hm] at h
      exact ⟨m', Machine.reaches_of_follow hm, of_decide_eq_true h⟩

def Reply.outcome : Reply → Outcome
  | .resolved (.error e) => .error e
  | _ => .ok ⟨none, []⟩

def History.Calm (h : History) : Prop := ∀ p ∈ h, p.action ≠ .clearEntries

instance (a : Action) : Decidable (a = .clearEntries) :=
  match a with
  | .clearEntries => isTrue rfl
  | .enter .. | .leave .. | .claimSlot _ | .findEntry _ | .countEntries | .readEntry _
  | .publish .. | .tryGate _ | .takeGate _ | .freeGate _ | .readCell _ | .claimCell _
  | .fillCell .. | .freeCell _ | .newProducer | .beginRun .. | .endRun .. | .observe .. | .note _
  | .pause | .yield => isFalse nofun

instance (h : History) : Decidable h.Calm := inferInstanceAs (Decidable (∀ p ∈ h, _))

theorem History.Calm.suffix {h h' : History} (calm : h'.Calm) (hs : h <:+ h') : h.Calm :=
  fun p hp => calm p (hs.subset hp)

/-- Calls were refused for what the terms say. -/
def History.Told (terms : Terms) (h : History) : Prop :=
  ∀ c mode key offer e, (⟨c, .enter mode key offer, .error e⟩ : Performed) ∈ h → terms.refuses e

theorem History.Told.suffix {terms : Terms} {h h' : History} (told : h'.Told terms)
    (hs : h <:+ h') : h.Told terms :=
  fun c mode key offer e hp => told c mode key offer e (hs.subset hp)

theorem told_plain {observers : Nat} {alone : Option ClientId} (h : History) :
    h.Told (.plain observers alone) := fun _ _ _ _ _ _ => trivial

/-- A step of client `c`, with what is held before and after it. -/
structure Taken (terms : Terms) (keys : List Key) (calls : ClientId → List Call) (s : Store)
    (c : ClientId) (a : Action) (r : a.Response) (calls' : List Call) (keys' : List Key)
    (s' : Store) : Prop where
  before : Tenure terms keys calls s
  move : Move terms (calls c) a r calls'
  performs : a.perform c (trailOf (calls c)) s = some (r, trailOf calls', s')
  grown : keys <+: keys'
  after : Tenure terms keys' (Function.update calls c calls') s'

/-- What every step of a client keeps. -/
def Kept (terms : Terms)
    (J : List Key → (ClientId → List Call) → Store → History → Prop) : Prop :=
  ∀ {keys calls s c a r calls' keys' s' h}, Taken terms keys calls s c a r calls' keys' s' →
    J keys calls s h → J keys' (Function.update calls c calls') s' (⟨c, a, r⟩ :: h)

theorem Kept.and {terms : Terms}
    {J J' : List Key → (ClientId → List Call) → Store → History → Prop} (kept : Kept terms J)
    (kept' : Kept terms J') :
    Kept terms fun keys calls s h => J keys calls s h ∧ J' keys calls s h :=
  fun taken old => ⟨kept taken old.1, kept' taken old.2⟩

theorem Program.Abides.left {terms : Terms} {α : Type} {p q : Program α} {calls : List Call}
    {post : List Call → α → Prop} (h : p.Abides terms calls q post) :
    p.Abides terms calls p post := by
  induction p generalizing calls q with
  | done a => exact ⟨rfl, h.2⟩
  | step a next ih =>
      obtain ⟨ho, next', -, hn⟩ := h
      exact ⟨ho, next, rfl, fun r calls' hm => ih r (hn r calls' hm)⟩

theorem tenure_start (terms : Terms) : Tenure terms [] (fun _ => []) .empty where
  length := rfl
  index key id h := by simp [Store.slotOf?, Store.empty] at h
  nested _ := trivial
  slot := by simp
  entry id e h := by simp [Store.slot, Store.empty, Slot.fresh] at h
  known := by simp
  vacant := by simp
  gate id c := by simp [Store.slot, Store.empty, Slot.fresh]
  cell id c := by simp [Store.slot, Store.empty, Slot.fresh]
  full id inst h := by simp [Store.slot, Store.empty, Slot.fresh] at h
  cached := by simp
  alone _ _ _ _ := rfl

/-- Every client is where its calls say, and keeps to the conduct of clients from there until it is
out of all calls, with replies that `ends` is true of. -/
structure Machine.Conducted (m : Machine) (terms : Terms) (keys : List Key)
    (calls : ClientId → List Call) (ends : ClientId → List Reply → Prop) : Prop where
  tenure : Tenure terms keys calls m.store
  trail : ∀ c (client : Client), m.clients[c]? = some client → client.trail = trailOf (calls c)
  abides : ∀ c (client : Client), m.clients[c]? = some client →
    client.program.Abides terms (calls c) client.program fun calls' replies =>
      calls' = [] ∧ ends c replies
  absent : ∀ c, m.clients[c]? = none → calls c = []

section Crowd

variable {terms : Terms} {ends : ClientId → List Reply → Prop}

theorem Machine.conducted_start {setting : Setting} {jobs : List (List Demand)}
    (h : ∀ (c : ClientId) demands, jobs[c]? = some demands →
      (work setting demands).Abides terms [] (work setting demands) fun calls replies =>
        calls = [] ∧ ends c replies) :
    (Machine.start setting jobs).Conducted terms [] (fun _ => []) ends where
  tenure := tenure_start _
  trail c client hc := by
    obtain ⟨demands, -, rfl⟩ := Option.map_eq_some_iff.1 (List.getElem?_map ▸ hc)
    rfl
  abides c client hc := by
    obtain ⟨demands, hd, rfl⟩ := Option.map_eq_some_iff.1 (List.getElem?_map ▸ hc)
    exact h c demands hd
  absent _ _ := rfl

/-- A step of a machine whose clients keep to their conduct is one that `Move` lists, and they keep
to it afterwards. -/
theorem Machine.Conducted.step {m m' : Machine} {keys : List Key} {calls : ClientId → List Call}
    (conducted : m.Conducted terms keys calls ends) (crowd : terms.alone = none) {c : ClientId}
    (hs : m.step c = some m') (told : m'.history.Told terms) :
    ∃ a r calls' keys', Taken terms keys calls m.store c a r calls' keys' m'.store ∧
      m'.history = ⟨c, a, r⟩ :: m.history ∧
        m'.Conducted terms keys' (Function.update calls c calls') ends := by
  obtain ⟨trail, a, next, r, trail', store, hc, hp, rfl⟩ := Machine.step_cases hs
  have ht := conducted.trail c _ hc
  obtain ⟨ho, next', hq, hn⟩ := conducted.abides c _ hc
  cases hq
  simp only at ht
  subst ht
  obtain ⟨keys', calls', grown, hm, rfl, tenure⟩ :=
    conducted.tenure.perform (fun _ h => by simp [crowd] at h) ho hp fun _ key _ e he hr => by
      subst he
      simp only [Action.perform, hr, Option.some.injEq, Prod.mk.injEq] at hp
      obtain ⟨rfl, -, -⟩ := hp
      exact told c _ key _ e List.mem_cons_self
  refine ⟨a, r, calls', keys', ⟨conducted.tenure, hm, hp, grown, tenure⟩, rfl, tenure, ?_, ?_, ?_⟩
  · intro c' client hc'
    by_cases hcc : c' = c
    · subst hcc
      have hlt := (List.getElem?_eq_some_iff.1 hc).1
      rw [List.getElem?_set_self hlt] at hc'
      cases hc'
      simp
    · rw [List.getElem?_set_ne (Ne.symm hcc)] at hc'
      rw [Function.update_of_ne hcc]
      exact conducted.trail c' client hc'
  · intro c' client hc'
    by_cases hcc : c' = c
    · subst hcc
      have hlt := (List.getElem?_eq_some_iff.1 hc).1
      rw [List.getElem?_set_self hlt] at hc'
      cases hc'
      rw [Function.update_self]
      exact hn r calls' hm
    · rw [List.getElem?_set_ne (Ne.symm hcc)] at hc'
      rw [Function.update_of_ne hcc]
      exact conducted.abides c' client hc'
  · intro c' hc'
    by_cases hcc : c' = c
    · subst hcc
      simp only [List.getElem?_eq_none_iff, List.length_set] at hc'
      have hlt := (List.getElem?_eq_some_iff.1 hc).1
      omega
    · rw [List.getElem?_set_ne (Ne.symm hcc)] at hc'
      rw [Function.update_of_ne hcc]
      exact conducted.absent c' hc'

/-- What every step keeps holds wherever a machine gets whose clients keep to their conduct. -/
theorem Machine.Conducted.reaches {m₀ m : Machine} {keys₀ : List Key}
    {calls₀ : ClientId → List Call} (conducted : m₀.Conducted terms keys₀ calls₀ ends)
    (crowd : terms.alone = none) (reach : m₀.Reaches m) (told : m.history.Told terms)
    {J : List Key → (ClientId → List Call) → Store → History → Prop}
    (start : J keys₀ calls₀ m₀.store m₀.history) (kept : Kept terms J) :
    ∃ keys calls, m.Conducted terms keys calls ends ∧ J keys calls m.store m.history := by
  induction reach with
  | start => exact ⟨keys₀, calls₀, conducted, start⟩
  | step reach hs ih =>
      have before := (Machine.Reaches.step .start hs).suffix
      obtain ⟨keys, calls, conducted, hj⟩ := ih (told.suffix before)
      obtain ⟨a, r, calls', keys', taken, history, conducted'⟩ := conducted.step crowd hs told
      exact ⟨keys', _, conducted', history ▸ kept taken hj⟩

end Crowd

/-- What holds at the start and is kept by every step holds wherever a machine gets. -/
theorem Machine.Reaches.conducted {setting : Setting} {jobs : List (List Demand)} {m : Machine}
    (reach : (Machine.start setting jobs).Reaches m)
    {J : List Key → (ClientId → List Call) → Store → History → Prop}
    (start : J [] (fun _ => []) .empty []) (kept : Kept (.plain setting.observers none) J) :
    ∃ keys calls, m.Conducted (.plain setting.observers none) keys calls (fun _ _ => True) ∧
      J keys calls m.store m.history := by
  refine (Machine.conducted_start fun c demands _ => ?_).reaches rfl reach (told_plain _) start kept
  exact (abides_work (runScript setting 0) demands).left.mono fun _ _ h => ⟨h.1, trivial⟩

/-- Every step of a history was taken by a client that kept to its conduct, with what holds at the
start and is kept by every step. -/
theorem Machine.Reaches.taken {setting : Setting} {jobs : List (List Demand)} {m : Machine}
    (reach : (Machine.start setting jobs).Reaches m)
    {J : List Key → (ClientId → List Call) → Store → History → Prop}
    (start : J [] (fun _ => []) .empty []) (kept : Kept (.plain setting.observers none) J)
    {c : ClientId} {a : Action} {r : a.Response} {h : History}
    (there : ⟨c, a, r⟩ :: h <:+ m.history) :
    ∃ keys calls calls' keys' m₁ m₂, (Machine.start setting jobs).Reaches m₁ ∧ m₂.Reaches m ∧
      m₁.step c = some m₂ ∧ m₁.history = h ∧
        Taken (.plain setting.observers none) keys calls m₁.store c a r calls' keys' m₂.store ∧
          J keys calls m₁.store h := by
  obtain ⟨m₁, m₂, reach₁, hs, h₁, h₂, later⟩ :=
    reach.moment there fun early => absurd (List.suffix_nil.1 early) (List.cons_ne_nil _ _)
  obtain ⟨keys, calls, conducted, hj⟩ := reach₁.conducted start kept
  obtain ⟨a', r', calls', keys', taken, eq, -⟩ := conducted.step rfl hs (told_plain _)
  rw [h₁] at hj
  rw [h₁, h₂] at eq
  cases eq
  exact ⟨keys, calls, calls', keys', m₁, m₂, reach₁, later, hs, h₁, taken, hj⟩

end Wiring.Registry
