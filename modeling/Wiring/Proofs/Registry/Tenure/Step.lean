import Wiring.Proofs.Registry.Tenure

/-!
Steps keep tenure. Whatever the registry answers to a step that is open to a client, the answer is
one that `Move` lists, and afterwards gates, cells and entries are again as the calls under way say.
-/
namespace Wiring.Registry

variable {terms : Terms} {keys : List Key} {calls : ClientId → List Call} {s : Store}
  {c : ClientId} {key : Key} {mode : Mode} {offer : Option ProducerId} {stage : Stage}
  {rest : List Call}

/-- An aside changes nothing but counts, and what a reset takes out of the index. -/
theorem Action.perform_aside {a : Action} (ha : a.IsAside) {t t' : Trail} {s' : Store}
    {r : a.Response} (hp : a.perform c t s = some (r, t', s')) :
    t' = t ∧ s'.slots = s.slots ∧ (s'.index = s.index ∨ s'.index = []) := by
  cases a with
  | newProducer | findEntry | countEntries | clearEntries | note | pause | yield | observe =>
      simp only [Action.perform, Option.some.injEq, Prod.mk.injEq] at hp
      obtain ⟨-, rfl, rfl⟩ := hp
      simp
  | readCell slot =>
      simp only [Action.perform] at hp
      split at hp <;> simp only [Option.some.injEq, Prod.mk.injEq] at hp <;>
        obtain ⟨-, rfl, rfl⟩ := hp <;> simp
  | _ => cases ha

def Cell.holder? : Cell → Option ClientId
  | .filling holder => some holder
  | .empty | .full _ => none

theorem Cell.holder?_eq_some_iff {cell : Cell} : cell.holder? = some c ↔ cell = .filling c := by
  cases cell <;> simp [Cell.holder?]

def Action.holder? (s : Store) : Action → Option ClientId
  | takeGate slot => (s.slot slot).gate
  | claimCell slot => (s.slot slot).cell.holder?
  | _ => none

theorem Stage.Ends.free {r : Resolved} (h : stage.Ends key r) :
    stage.gate? = none ∧ stage.cell? = none := by
  cases h with
  | fresh h | spoiled h => exact ⟨rfl, by simp [Stage.cell?, h]⟩
  | _ => exact ⟨rfl, rfl⟩

theorem Stage.Ends.idle {r : Resolved} (h : stage.Ends key r) : stage.run? = none := by
  cases h <;> rfl

/-- An awaited call puts back the task trail that it found, a plain one takes its name away. -/
theorem leave?_trailOf (call : Call) (calls : List Call) :
    (trailOf (call :: calls)).leave? call.key.name (trailOf calls).task call.mode =
      some (trailOf calls) := by
  cases hm : call.mode with
  | sync => simp [trailOf, Trail.enter, Trail.leave?, hm]
  | async => simp [trailOf, Trail.enter, Trail.leave?, hm]

/-- A step has to wait where somebody holds what it takes, and nowhere else. -/
theorem Open.perform_eq_none_iff {cs : List Call} {a : Action} (ho : Open terms cs a) :
    a.perform c (trailOf cs) s = none ↔ ∃ holder, a.holder? s = some holder := by
  cases a with
  | takeGate slot => cases hg : (s.slot slot).gate <;> simp [Action.perform, Action.holder?, hg]
  | claimCell slot =>
      cases hl : (s.slot slot).cell <;> simp [Action.perform, Action.holder?, Cell.holder?, hl]
  | leave =>
      cases ho with
      | move hm =>
          cases hm with
          | @own call _ _ _ _ hn =>
              obtain ⟨_, _, _, stage⟩ := call
              cases hn
          | leave => simp [Action.perform, leave?_trailOf, Action.holder?]
          | aside _ ha => cases ha
  | enter | publish | tryGate | readCell =>
      simp only [Action.perform, Action.holder?]
      split <;> simp
  | endRun _ _ _ _ outcome => cases outcome <;> simp [Action.perform, Action.holder?]
  | _ => simp [Action.perform, Action.holder?]

/-- All that a stage says of the registry. -/
structure Stage.View where
  gate : Option SlotId
  cell : Option SlotId
  entry : Option Entry
  vacancy : Option SlotId
  slot : Option SlotId
  cached : Option (Entry × Instance)

def Stage.view (s : Stage) : Stage.View :=
  ⟨s.gate?, s.cell?, s.entry?, s.vacancy?, s.slot?, s.cached?⟩

/-- Calls that say what others said before. One that says anything else has just been entered, and
one that is gone held nothing. -/
structure Restates (old new : List Call) : Prop where
  said : ∀ x ∈ new, x.stage = .entered ∨
    ∃ y ∈ old, y.key = x.key ∧ y.stage.view = x.stage.view
  kept : ∀ y ∈ old, y.stage.gate? = none ∧ y.stage.cell? = none ∨
    ∃ x ∈ new, x.key = y.key ∧ x.stage.view = y.stage.view

namespace Restates

variable {old new : List Call} {call : Call}

theorem refl (old : List Call) : Restates old old where
  said x hx := .inr ⟨x, hx, rfl, rfl⟩
  kept y hy := .inr ⟨y, hy, rfl, rfl⟩

theorem push (entered : call.stage = .entered) : Restates old (call :: old) where
  said := List.forall_mem_cons.2 ⟨.inl entered, (refl old).said⟩
  kept y hy := .inr ⟨y, List.mem_cons_of_mem _ hy, rfl, rfl⟩

theorem pop (free : call.stage.gate? = none ∧ call.stage.cell? = none) :
    Restates (call :: old) old where
  said x hx := .inr ⟨x, List.mem_cons_of_mem _ hx, rfl, rfl⟩
  kept := List.forall_mem_cons.2 ⟨.inl free, (refl old).kept⟩

theorem top {stage : Stage} (same : stage.view = call.stage.view) :
    Restates (call :: old) ({ call with stage } :: old) where
  said := List.forall_mem_cons.2 ⟨.inr ⟨call, List.mem_cons_self, rfl, same.symm⟩,
    fun x hx => .inr ⟨x, List.mem_cons_of_mem _ hx, rfl, rfl⟩⟩
  kept := List.forall_mem_cons.2 ⟨.inr ⟨_, List.mem_cons_self, rfl, same⟩,
    fun y hy => .inr ⟨y, List.mem_cons_of_mem _ hy, rfl, rfl⟩⟩

theorem update (restates : Restates (calls c) new) (c' : ClientId) :
    Restates (calls c') (Function.update calls c new c') := by
  by_cases hcc : c' = c
  · subst hcc
    rwa [Function.update_self]
  · rw [Function.update_of_ne hcc]
    exact refl _

/-- What is held is held by somebody still. -/
theorem holds (restates : Restates old new) (f : Stage.View → Option SlotId)
    (entered : f Stage.entered.view = none)
    (free : ∀ s : Stage, s.gate? = none → s.cell? = none → f s.view = none) (id : SlotId) :
    (∃ x ∈ new, f x.stage.view = some id) ↔ ∃ x ∈ old, f x.stage.view = some id := by
  constructor
  · intro ⟨x, hx, held⟩
    cases restates.said x hx with
    | inl new =>
        rw [new, entered] at held
        cases held
    | inr before =>
        obtain ⟨y, hy, -, same⟩ := before
        exact ⟨y, hy, same ▸ held⟩
  · intro ⟨y, hy, held⟩
    cases restates.kept y hy with
    | inl idle =>
        rw [free _ idle.1 idle.2] at held
        cases held
    | inr later =>
        obtain ⟨x, hx, -, same⟩ := later
        exact ⟨x, hx, same ▸ held⟩

end Restates

namespace Tenure

/-- A step that changes no slot and only forgets what the index held. -/
theorem aside (t : Tenure terms keys calls s) {s' : Store} (slots : s'.slots = s.slots)
    (index : s'.index = s.index ∨ s'.index = []) : Tenure terms keys calls s' := by
  have slot : ∀ i, s'.slot i = s.slot i := fun i => by simp [Store.slot, slots]
  refine ⟨slots ▸ t.length, ?_, t.nested, t.slot, ?_, ?_, ?_, ?_, ?_, ?_, ?_, t.alone⟩
  · intro k i h
    cases index with
    | inl hi => exact t.index k i (by rw [← h]; simp only [Store.slotOf?, hi])
    | inr hi => simp [Store.slotOf?, hi] at h
  · simpa only [slot] using t.entry
  · simpa only [slot] using t.known
  · simpa only [slot] using t.vacant
  · simpa only [slot] using t.gate
  · simpa only [slot] using t.cell
  · simpa only [slot] using t.full
  · simpa only [slot] using t.cached

/-- A step after which calls say what was said before. -/
theorem restate (t : Tenure terms keys calls s) (only : ∀ me, terms.alone = some me → c = me)
    {calls' : List Call} (nested : Nested calls') (restates : Restates (calls c) calls') :
    Tenure terms keys (Function.update calls c calls') s where
  length := t.length
  index := t.index
  nested := t.nested_update nested
  slot c' x hx i hs := by
    cases (restates.update c').said x hx with
    | inl new => simp [new, Stage.slot?, Stage.gate?, Stage.entry?] at hs
    | inr before =>
        obtain ⟨y, hy, hk, same⟩ := before
        exact hk ▸ t.slot c' y hy i ((congrArg Stage.View.slot same).trans hs)
  entry := t.entry
  known c' x hx e he := by
    cases (restates.update c').said x hx with
    | inl new => simp [new, Stage.entry?] at he
    | inr before =>
        obtain ⟨y, hy, -, same⟩ := before
        exact t.known c' y hy e ((congrArg Stage.View.entry same).trans he)
  vacant c' x hx i hv := by
    cases (restates.update c').said x hx with
    | inl new => simp [new, Stage.vacancy?] at hv
    | inr before =>
        obtain ⟨y, hy, -, same⟩ := before
        exact t.vacant c' y hy i ((congrArg Stage.View.vacancy same).trans hv)
  gate i c' := (t.gate i c').trans
    ((restates.update c').holds Stage.View.gate rfl (fun _ gate _ => gate) i).symm
  cell i c' := (t.cell i c').trans
    ((restates.update c').holds Stage.View.cell rfl (fun _ _ cell => cell) i).symm
  full := t.full
  cached c' x hx e inst hs := by
    cases (restates.update c').said x hx with
    | inl new => simp [new, Stage.cached?] at hs
    | inr before =>
        obtain ⟨y, hy, -, same⟩ := before
        exact t.cached c' y hy e inst ((congrArg Stage.View.cached same).trans hs)
  alone _ alone _ hne := t.alone_update only alone hne

/-- The gate of the slot that the innermost call knows is the client's if the call holds it. -/
theorem gate_iff (t : Tenure terms keys calls s)
    (hc : calls c = ⟨key, mode, offer, stage⟩ :: rest) {id : SlotId}
    (hk : keys[id]? = some key) : (s.slot id).gate = some c ↔ stage.gate? = some id := by
  have free : ¬∃ x ∈ rest, x.stage.gate? = some id := fun ⟨x, hx, hs⟩ =>
    t.slot_ne_of_mem_rest hc hk hx (Stage.slot?_of_gate? hs)
  rw [t.gate, hc]
  simp only [List.mem_cons, exists_eq_or_imp, free, or_false]

theorem cell_iff (t : Tenure terms keys calls s)
    (hc : calls c = ⟨key, mode, offer, stage⟩ :: rest) {id : SlotId}
    (hk : keys[id]? = some key) : (s.slot id).cell = .filling c ↔ stage.cell? = some id := by
  have free : ¬∃ x ∈ rest, x.stage.cell? = some id := fun ⟨x, hx, hs⟩ =>
    t.slot_ne_of_mem_rest hc hk hx (Stage.slot?_of_cell? hs)
  rw [t.cell, hc]
  simp only [List.mem_cons, exists_eq_or_imp, free, or_false]

theorem key_of_slot (t : Tenure terms keys calls s)
    (hc : calls c = ⟨key, mode, offer, stage⟩ :: rest) (id : SlotId)
    (hs : stage.slot? = some id) : keys[id]? = some key :=
  t.slot c _ (hc ▸ List.mem_cons_self) id hs

/-- A step that learns something of its slot and changes nothing. -/
theorem learn (t : Tenure terms keys calls s)
    (hc : calls c = ⟨key, mode, offer, stage⟩ :: rest) {id : SlotId} (hk : keys[id]? = some key)
    {stage' : Stage} (before : ∀ i, stage.slot? = some i → i = id)
    (after : ∀ i, stage'.slot? = some i → i = id) (gate : stage'.gate? = stage.gate?)
    (cell : stage'.cell? = stage.cell?)
    (known : ∀ e, stage'.entry? = some e → (s.slot id).entry = some e)
    (vacant : stage'.vacancy? = some id → (s.slot id).entry = none)
    (cached : ∀ e inst, stage'.cached? = some (e, inst) → (s.slot id).cell = .full inst) :
    Tenure terms keys (Function.update calls c (⟨key, mode, offer, stage'⟩ :: rest)) s := by
  refine t.change hc hk rfl (fun _ => rfl) (fun _ _ => rfl) ⟨before, after, ?_, ?_, .inl rfl,
    known, vacant, fun _ => .inl, fun _ h => h, cached⟩
  · intro c'
    split
    · next h => subst h; rw [t.gate_iff hc hk, gate]
    · rfl
  · intro c'
    split
    · next h => subst h; rw [t.cell_iff hc hk, cell]
    · rfl

theorem alter (t : Tenure terms keys calls s)
    (hc : calls c = ⟨key, mode, offer, stage⟩ :: rest) {id : SlotId} (hk : keys[id]? = some key)
    {stage' : Stage} {f : Slot → Slot}
    (ch : Change terms c ⟨key, mode, offer, stage⟩ id stage' (s.slot id) (f (s.slot id))) :
    Tenure terms keys (Function.update calls c (⟨key, mode, offer, stage'⟩ :: rest))
      (s.update id f) :=
  t.change hc hk (s.length_update id f) (s.slotOf?_update id f)
    (fun _ h => s.slot_update_of_ne h f) (by rw [s.slot_update (t.lt_length hk)]; exact ch)

theorem takeGate (t : Tenure terms keys calls s) {slot : SlotId}
    (hc : calls c = ⟨key, mode, offer, .missed slot⟩ :: rest) (free : (s.slot slot).gate = none) :
    Tenure terms keys (Function.update calls c (⟨key, mode, offer, .gated slot⟩ :: rest))
      (s.update slot fun σ => { σ with gate := some c }) := by
  have hk := t.key_of_slot hc _ rfl
  refine t.alter hc hk ⟨by simp [Stage.slot?], by simp [Stage.slot?, Stage.gate?], ?_, ?_,
    .inl rfl, by simp [Stage.entry?], by simp [Stage.vacancy?], fun _ => .inl, fun _ h => h,
    by simp [Stage.cached?]⟩
  · intro c'
    by_cases h : c' = c
    · subst h
      simp [Stage.gate?]
    · simp [free, h, Ne.symm h]
  · intro c'
    split
    · next h => subst h; exact t.cell_iff hc hk
    · rfl

theorem freeGate (t : Tenure terms keys calls s) {slot : SlotId}
    (hc : calls c = ⟨key, mode, offer, stage⟩ :: rest) (held : stage.gate? = some slot)
    {stage' : Stage} (before : ∀ i, stage.slot? = some i → i = slot)
    (after : ∀ i, stage'.slot? = some i → i = slot)
    (gate : stage'.gate? = none) (cell : stage'.cell? = stage.cell?)
    (known : ∀ e, stage'.entry? = some e → stage.entry? = some e)
    (vacant : stage'.vacancy? = none) (cached : stage'.cached? = none) :
    Tenure terms keys (Function.update calls c (⟨key, mode, offer, stage'⟩ :: rest))
      (s.update slot fun σ => { σ with gate := none }) := by
  have hk := t.key_of_slot hc _ (Stage.slot?_of_gate? held)
  have mine : (s.slot slot).gate = some c := (t.gate_iff hc hk).2 held
  refine t.alter hc hk ⟨before, after, ?_, ?_, .inl rfl, ?_, by simp [vacant], fun _ => .inl,
    fun _ h => h, by simp [cached]⟩
  · intro c'
    by_cases h : c' = c
    · subst h
      simp [gate]
    · simp [mine, h, Ne.symm h]
  · intro c'
    split
    · next h => subst h; rw [cell]; exact t.cell_iff hc hk
    · rfl
  · intro e he
    have hs := before _ (Stage.slot?_of_entry? (known e he))
    exact hs ▸ t.known c _ (hc ▸ List.mem_cons_self) e (known e he)

theorem publish (t : Tenure terms keys calls s) {slot : SlotId} {e : Entry}
    (hc : calls c = ⟨key, mode, offer, stage⟩ :: rest) (held : stage.gate? = some slot)
    (cell : stage.cell? = none) (before : ∀ i, stage.slot? = some i → i = slot)
    (vacant : (s.slot slot).entry = none) (suits : e.Suits terms key slot) :
    Tenure terms keys (Function.update calls c (⟨key, mode, offer, .announcing e 0⟩ :: rest))
      (s.update slot fun σ => { σ with entry := some e }) := by
  have hk := t.key_of_slot hc _ (Stage.slot?_of_gate? held)
  obtain rfl := suits.slot
  refine t.alter hc hk ⟨before, by simp [Stage.slot?, Stage.gate?], ?_, ?_,
    .inr ⟨e, vacant, rfl, suits, held⟩, by simp [Stage.entry?], by simp [Stage.vacancy?],
    fun _ => .inl, fun _ h => h, by simp [Stage.cached?]⟩
  · intro c'
    split
    · next h => subst h; rw [t.gate_iff hc hk, held]; rfl
    · rfl
  · intro c'
    split
    · next h => subst h; rw [t.cell_iff hc hk, cell]; rfl
    · rfl

theorem claimCell (t : Tenure terms keys calls s) {e : Entry}
    (hc : calls c = ⟨key, mode, offer, .reading e⟩ :: rest)
    (free : (s.slot e.slot).cell = .empty) :
    Tenure terms keys (Function.update calls c (⟨key, mode, offer, .filling e⟩ :: rest))
      (s.update e.slot fun σ => { σ with cell := .filling c }) := by
  have hk := t.key_of_slot hc _ (Stage.slot?_of_entry? rfl)
  have known := t.known c _ (hc ▸ List.mem_cons_self) e rfl
  refine t.alter hc hk ⟨by simp [Stage.slot?, Stage.gate?, Stage.entry?],
    by simp [Stage.slot?, Stage.gate?, Stage.entry?], ?_, ?_, .inl rfl,
    by simp [Stage.entry?, known],
    by simp [Stage.vacancy?], by simp, by simp [free], by simp [Stage.cached?]⟩
  · intro c'
    split
    · next h => subst h; exact t.gate_iff hc hk
    · rfl
  · intro c'
    by_cases h : c' = c
    · subst h
      simp [Stage.cell?]
    · simp [free, h, Ne.symm h]

theorem freeCell (t : Tenure terms keys calls s) {e : Entry} {r : Resolved}
    (hc : calls c = ⟨key, mode, offer, .made e r⟩ :: rest) (lazy : e.resolution.isLazy)
    {stage' : Stage} {cell : Cell} (after : ∀ i, stage'.slot? = some i → i = e.slot)
    (gate : stage'.gate? = none) (empty : stage'.cell? = none)
    (known : ∀ e', stage'.entry? = some e' → e' = e) (vacant : stage'.vacancy? = none)
    (left : ∀ c', cell ≠ .filling c')
    (full : ∀ inst, cell = .full inst → inst.key = key ∧ terms.inst inst)
    (cached : ∀ e' inst, stage'.cached? = some (e', inst) → cell = .full inst) :
    Tenure terms keys (Function.update calls c (⟨key, mode, offer, stage'⟩ :: rest))
      (s.update e.slot fun σ => { σ with cell }) := by
  have hk := t.key_of_slot hc _ (Stage.slot?_of_entry? rfl)
  have there := t.known c _ (hc ▸ List.mem_cons_self) e rfl
  have held : (s.slot e.slot).cell = .filling c :=
    (t.cell_iff hc hk).2 (by simp [Stage.cell?, lazy])
  have suits := t.suits hk there
  refine t.alter hc hk ⟨by simp [Stage.slot?, Stage.gate?, Stage.entry?], after, ?_, ?_, .inl rfl,
    fun e' h => known e' h ▸ there, by simp [vacant], fun inst h => .inr ⟨e, there, lazy, ?_⟩,
    by simp [held], cached⟩
  · intro c'
    split
    · next h => subst h; rw [t.gate_iff hc hk, gate]; rfl
    · rfl
  · intro c'
    by_cases h : c' = c
    · subst h
      simp [empty, left]
    · simp [held, left, h, Ne.symm h]
  · exact ⟨(full inst h).1.trans suits.key.symm, (full inst h).2⟩

theorem settle (t : Tenure terms keys calls s) {e : Entry} {inst : Instance}
    (hc : calls c = ⟨key, mode, offer, .reading e⟩ :: rest)
    (full : (s.slot e.slot).cell = .full inst) :
    Tenure terms keys
      (Function.update calls c (⟨key, mode, offer, .settled e inst⟩ :: rest)) s := by
  have known := t.known c _ (hc ▸ List.mem_cons_self) e rfl
  refine t.learn hc (t.key_of_slot hc _ (Stage.slot?_of_entry? rfl)) ?_ ?_ rfl rfl ?_ ?_ ?_ <;>
    simp [Stage.slot?, Stage.gate?, Stage.entry?, Stage.vacancy?, Stage.cached?, known, full]

theorem full_key (t : Tenure terms keys calls s) {id : SlotId} (hk : keys[id]? = some key)
    {e : Entry} (known : (s.slot id).entry = some e) {inst : Instance}
    (full : (s.slot id).cell = .full inst) :
    e.resolution.isLazy ∧ terms.inst inst ∧ inst.key = key := by
  obtain ⟨e', he, hl, hi, ht⟩ := t.full id inst full
  cases known.symm.trans he
  exact ⟨hl, ht, hi.trans (t.suits hk he).key⟩

/-- Whoever finds a gate held is not the only client. -/
theorem crowded (t : Tenure terms keys calls s) {slot : SlotId}
    (hc : calls c = ⟨key, mode, offer, stage⟩ :: rest) (hk : keys[slot]? = some key)
    {holder : ClientId} (held : (s.slot slot).gate = some holder)
    (mine : stage.gate? ≠ some slot) : terms.alone = none := by
  cases ha : terms.alone with
  | none => rfl
  | some me =>
      obtain ⟨x, hx, -⟩ := (t.gate slot holder).1 held
      obtain rfl := t.only_caller (c := c) (by simp [hc]) me ha
      obtain rfl := t.only_caller (List.ne_nil_of_mem hx) c ha
      exact absurd ((t.gate_iff hc hk).1 held) mine

theorem endRun_spec {slot : SlotId} {p : ProducerId} {run : Nat} {outcome : Outcome}
    {tr tr' : Trail} {r : Resolved} {s' : Store}
    (hp : (Action.endRun slot key p run outcome).perform c tr s = some (r, tr', s')) :
    tr' = tr ∧ s'.slots = s.slots ∧ s'.index = s.index ∧ Made key p run outcome r := by
  cases outcome with
  | error e =>
      simp only [Action.perform, Option.some.injEq, Prod.mk.injEq] at hp
      obtain ⟨rfl, rfl, rfl⟩ := hp
      exact ⟨rfl, rfl, rfl, 0, rfl⟩
  | ok payload =>
      simp only [Action.perform, Option.some.injEq, Prod.mk.injEq] at hp
      obtain ⟨rfl, rfl, rfl⟩ := hp
      exact ⟨rfl, rfl, rfl, _, rfl⟩

/-- A slot that is added is the slot of its key. -/
theorem extend (t : Tenure terms keys calls s) (key : Key) :
    Tenure terms (keys ++ [key]) calls
      { s with slots := s.slots ++ [.fresh], index := s.index ++ [(key, s.slots.length)] } := by
  have old : ∀ (i : Nat) (k : Key), keys[i]? = some k → (keys ++ [key])[i]? = some k :=
    fun i k h => by rw [List.getElem?_append_left (List.getElem?_eq_some_iff.1 h).1, h]
  have slot := fun i => s.slot_append i (s.index ++ [(key, s.slots.length)])
  refine ⟨by simp [t.length], ?_, t.nested, fun c' x hx i h => old _ _ (t.slot c' x hx i h),
    ?_, ?_, ?_, ?_, ?_, ?_, ?_, t.alone⟩
  · intro k i h
    simp only [Store.slotOf?, List.lookup_append, Option.or_eq_some_iff] at h
    cases h with
    | inl there => exact old _ _ (t.index k i there)
    | inr new =>
        simp only [List.lookup_cons, List.lookup_nil] at new
        obtain ⟨-, new⟩ := new
        split at new
        · next he =>
            cases new
            rw [eq_of_beq he, ← t.length]
            exact List.getElem?_concat_length
        · cases new
  · intro i e h
    rw [slot] at h
    obtain ⟨k, hk, suits⟩ := t.entry i e h
    exact ⟨k, old _ _ hk, suits⟩
  · simpa only [slot] using t.known
  · simpa only [slot] using t.vacant
  · simpa only [slot] using t.gate
  · simpa only [slot] using t.cell
  · simpa only [slot] using t.full
  · simpa only [slot] using t.cached

/-- The slot of a key is there, or is made. -/
theorem claim (t : Tenure terms keys calls s)
    (hc : calls c = ⟨key, mode, offer, .entered⟩ :: rest) :
    ∃ keys', keys <+: keys' ∧ Tenure terms keys'
      (Function.update calls c (⟨key, mode, offer, .claimed (s.claim key).1⟩ :: rest))
      (s.claim key).2 := by
  unfold Store.claim
  cases hs : s.slotOf? key with
  | some id =>
      refine ⟨keys, List.prefix_refl _, t.learn hc (t.index key id hs) ?_ ?_ rfl rfl ?_ ?_ ?_⟩ <;>
        simp [Stage.slot?, Stage.gate?, Stage.entry?, Stage.vacancy?, Stage.cached?]
  | none =>
      have new : (keys ++ [key])[s.slots.length]? = some key := by simp [← t.length]
      refine ⟨keys ++ [key], List.prefix_append _ _,
        (t.extend key).learn hc new ?_ ?_ rfl rfl ?_ ?_ ?_⟩ <;>
        simp [Stage.slot?, Stage.gate?, Stage.entry?, Stage.vacancy?, Stage.cached?]

/-- The response to a step of the innermost call is one that the step may have, and tenure is kept
with it. -/
def Onward (terms : Terms) (keys : List Key) (calls : ClientId → List Call) (c : ClientId)
    (call : Call) (rest : List Call) (a : Action) (r : a.Response) (s' : Store) : Prop :=
  ∃ keys' stage', keys <+: keys' ∧ call.stage.Next terms call.key call.offer a r stage' ∧
    Tenure terms keys' (Function.update calls c ({ call with stage := stage' } :: rest)) s'

section Steps

variable {a : Action} {r : a.Response} {stage' : Stage} {slot : SlotId} {e : Entry}
  {tr tr' : Trail} {s' : Store}

theorem onward_still (t : Tenure terms keys calls s)
    (hc : calls c = ⟨key, mode, offer, stage⟩ :: rest)
    (next : stage.Next terms key offer a r stage') (same : stage'.view = stage.view)
    (slots : s'.slots = s.slots) (index : s'.index = s.index) :
    Onward terms keys calls c ⟨key, mode, offer, stage⟩ rest a r s' := by
  have nested : Nested (⟨key, mode, offer, stage'⟩ :: rest) := by
    have before := t.nested c
    rw [hc] at before
    exact before
  refine ⟨keys, stage', List.prefix_refl _, next, ?_⟩
  apply (t.aside slots (.inl index)).restate (t.only_caller (by simp [hc])) nested
  rw [hc]
  exact .top same

theorem onward_find (t : Tenure terms keys calls s)
    (hc : calls c = ⟨key, mode, offer, .entered⟩ :: rest) :
    Onward terms keys calls c ⟨key, mode, offer, .entered⟩ rest (.findEntry key) (s.entryOf? key)
      s := by
  cases he : s.entryOf? key with
  | none => exact t.onward_still hc .absent rfl rfl rfl
  | some e =>
      obtain ⟨id, hid, he⟩ := Option.bind_eq_some_iff.1 he
      have hk := t.index key id hid
      have suits := t.suits hk he
      obtain rfl := suits.slot
      refine ⟨keys, _, List.prefix_refl _, .find suits, t.learn hc hk ?_ ?_ rfl rfl ?_ ?_ ?_⟩ <;>
        simp [Stage.slot?, Stage.gate?, Stage.entry?, Stage.vacancy?, Stage.cached?, he]

theorem onward_read (t : Tenure terms keys calls s)
    (hc : calls c = ⟨key, mode, offer, .claimed slot⟩ :: rest) :
    Onward terms keys calls c ⟨key, mode, offer, .claimed slot⟩ rest (.readEntry slot)
      (s.slot slot).entry s := by
  have hk := t.key_of_slot hc slot rfl
  cases he : (s.slot slot).entry with
  | none => exact t.onward_still hc .miss rfl rfl rfl
  | some e =>
      have suits := t.suits hk he
      refine ⟨keys, _, List.prefix_refl _, .hit suits, t.learn hc hk ?_ ?_ rfl rfl ?_ ?_ ?_⟩ <;>
        simp [Stage.slot?, Stage.gate?, Stage.entry?, Stage.vacancy?, Stage.cached?, he,
          suits.slot]

theorem onward_confirm (t : Tenure terms keys calls s)
    (hc : calls c = ⟨key, mode, offer, .gated slot⟩ :: rest) :
    Onward terms keys calls c ⟨key, mode, offer, .gated slot⟩ rest (.readEntry slot)
      (s.slot slot).entry s := by
  have hk := t.key_of_slot hc slot rfl
  cases he : (s.slot slot).entry with
  | none =>
      refine ⟨keys, _, List.prefix_refl _, .confirm, t.learn hc hk ?_ ?_ rfl rfl ?_ ?_ ?_⟩ <;>
        simp [Stage.slot?, Stage.gate?, Stage.entry?, Stage.vacancy?, Stage.cached?, he]
  | some e =>
      have suits := t.suits hk he
      obtain rfl := suits.slot
      refine ⟨keys, _, List.prefix_refl _, .pass suits, t.learn hc hk ?_ ?_ rfl rfl ?_ ?_ ?_⟩ <;>
        simp [Stage.slot?, Stage.gate?, Stage.entry?, Stage.vacancy?, Stage.cached?, he]

theorem onward_tryGate (t : Tenure terms keys calls s)
    (hc : calls c = ⟨key, mode, offer, .missed slot⟩ :: rest) {r : Bool}
    (hp : (Action.tryGate slot).perform c tr s = some (r, tr', s')) :
    tr' = tr ∧ Onward terms keys calls c ⟨key, mode, offer, .missed slot⟩ rest (.tryGate slot) r
      s' := by
  simp only [Action.perform] at hp
  cases hg : (s.slot slot).gate with
  | none =>
      simp only [hg, Option.some.injEq, Prod.mk.injEq] at hp
      obtain ⟨rfl, rfl, rfl⟩ := hp
      exact ⟨rfl, keys, _, List.prefix_refl _, .tryGate, t.takeGate hc hg⟩
  | some holder =>
      simp only [hg, Option.some.injEq, Prod.mk.injEq] at hp
      obtain ⟨rfl, rfl, rfl⟩ := hp
      have crowded := t.crowded hc (t.key_of_slot hc _ rfl) hg (by simp [Stage.gate?])
      exact ⟨rfl, t.onward_still hc (.gateHeld crowded) rfl rfl rfl⟩

theorem onward_takeGate (t : Tenure terms keys calls s)
    (hc : calls c = ⟨key, mode, offer, .missed slot⟩ :: rest) {r : Unit}
    (hp : (Action.takeGate slot).perform c tr s = some (r, tr', s')) :
    tr' = tr ∧ Onward terms keys calls c ⟨key, mode, offer, .missed slot⟩ rest (.takeGate slot) r
      s' := by
  simp only [Action.perform] at hp
  cases hg : (s.slot slot).gate with
  | none =>
      simp only [hg, Option.some.injEq, Prod.mk.injEq] at hp
      obtain ⟨-, rfl, rfl⟩ := hp
      exact ⟨rfl, keys, _, List.prefix_refl _, .takeGate, t.takeGate hc hg⟩
  | some holder => simp [hg] at hp

theorem onward_beginRun (t : Tenure terms keys calls s)
    (hc : calls c = ⟨key, mode, offer, stage⟩ :: rest) {p : ProducerId} {after : Nat → Stage}
    (next : ∀ run, stage.Next terms key offer (.beginRun slot key p) run (after run))
    (same : ∀ run, (after run).view = stage.view) {run : Nat}
    (hp : (Action.beginRun slot key p).perform c tr s = some (run, tr', s')) :
    tr' = tr ∧ Onward terms keys calls c ⟨key, mode, offer, stage⟩ rest (.beginRun slot key p) run
      s' := by
  simp only [Action.perform, Option.some.injEq, Prod.mk.injEq] at hp
  obtain ⟨-, rfl, rfl⟩ := hp
  exact ⟨rfl, t.onward_still hc (next run) (same run) rfl rfl⟩

theorem onward_endRun (t : Tenure terms keys calls s)
    (hc : calls c = ⟨key, mode, offer, stage⟩ :: rest) {p : ProducerId} {run : Nat}
    {outcome : Outcome} {after : Resolved → Stage}
    (next : ∀ r, Made key p run outcome r →
      stage.Next terms key offer (.endRun slot key p run outcome) r (after r))
    (same : ∀ r, (after r).view = stage.view) {r : Resolved}
    (hp : (Action.endRun slot key p run outcome).perform c tr s = some (r, tr', s')) :
    tr' = tr ∧ Onward terms keys calls c ⟨key, mode, offer, stage⟩ rest
      (.endRun slot key p run outcome) r s' := by
  obtain ⟨rfl, slots, index, made⟩ := endRun_spec hp
  exact ⟨rfl, t.onward_still hc (next r made) (same r) slots index⟩

theorem onward_publish (t : Tenure terms keys calls s)
    (hc : calls c = ⟨key, mode, offer, stage⟩ :: rest) (vacancy : stage.vacancy? = some slot)
    (cell : stage.cell? = none) (before : ∀ i, stage.slot? = some i → i = slot)
    (suits : e.Suits terms key slot)
    (next : stage.Next terms key offer (.publish slot e) e (.announcing e 0)) {r : Entry}
    (hp : (Action.publish slot e).perform c tr s = some (r, tr', s')) :
    tr' = tr ∧ Onward terms keys calls c ⟨key, mode, offer, stage⟩ rest (.publish slot e) r s' := by
  have vacant := t.vacant c _ (hc ▸ List.mem_cons_self) slot vacancy
  simp only [Action.perform, vacant, Option.some.injEq, Prod.mk.injEq] at hp
  obtain ⟨rfl, rfl, rfl⟩ := hp
  exact ⟨rfl, keys, _, List.prefix_refl _, next,
    t.publish hc (Stage.gate?_of_vacancy? vacancy) cell before vacant suits⟩

theorem onward_observe (t : Tenure terms keys calls s)
    (hc : calls c = ⟨key, mode, offer, stage⟩ :: rest) {i : Nat} {notice : Notice} {r : Unit}
    (next : stage.Next terms key offer (.observe i notice) r stage')
    (same : stage'.view = stage.view)
    (hp : (Action.observe i notice).perform c tr s = some (r, tr', s')) :
    tr' = tr ∧ Onward terms keys calls c ⟨key, mode, offer, stage⟩ rest (.observe i notice) r
      s' := by
  simp only [Action.perform, Option.some.injEq, Prod.mk.injEq] at hp
  obtain ⟨-, rfl, rfl⟩ := hp
  exact ⟨rfl, t.onward_still hc next same rfl rfl⟩

theorem onward_freeGate (t : Tenure terms keys calls s)
    (hc : calls c = ⟨key, mode, offer, stage⟩ :: rest) {r : Unit}
    (next : stage.Next terms key offer (.freeGate slot) r stage') (held : stage.gate? = some slot)
    (before : ∀ i, stage.slot? = some i → i = slot)
    (after : ∀ i, stage'.slot? = some i → i = slot) (gate : stage'.gate? = none)
    (cell : stage'.cell? = stage.cell?)
    (known : ∀ e, stage'.entry? = some e → stage.entry? = some e)
    (vacant : stage'.vacancy? = none) (cached : stage'.cached? = none)
    (hp : (Action.freeGate slot).perform c tr s = some (r, tr', s')) :
    tr' = tr ∧ Onward terms keys calls c ⟨key, mode, offer, stage⟩ rest (.freeGate slot) r s' := by
  simp only [Action.perform, Option.some.injEq, Prod.mk.injEq] at hp
  obtain ⟨-, rfl, rfl⟩ := hp
  exact ⟨rfl, keys, _, List.prefix_refl _, next,
    t.freeGate hc held before after gate cell known vacant cached⟩

theorem onward_readCell (t : Tenure terms keys calls s)
    (hc : calls c = ⟨key, mode, offer, .reading e⟩ :: rest) {r : Option Instance}
    (hp : (Action.readCell e.slot).perform c tr s = some (r, tr', s')) :
    tr' = tr ∧ Onward terms keys calls c ⟨key, mode, offer, .reading e⟩ rest (.readCell e.slot) r
      s' := by
  have known := t.known c _ (hc ▸ List.mem_cons_self) e rfl
  simp only [Action.perform] at hp
  cases hl : (s.slot e.slot).cell with
  | empty | filling =>
      simp only [hl, Option.some.injEq, Prod.mk.injEq] at hp
      obtain ⟨rfl, rfl, rfl⟩ := hp
      exact ⟨rfl, t.onward_still hc .unseen rfl rfl rfl⟩
  | full inst =>
      simp only [hl, Option.some.injEq, Prod.mk.injEq] at hp
      obtain ⟨rfl, rfl, rfl⟩ := hp
      obtain ⟨lazy, hi, hik⟩ := t.full_key (t.key_of_slot hc e.slot rfl) known hl
      exact ⟨rfl, keys, _, List.prefix_refl _, .see lazy hi hik, t.settle hc hl⟩

theorem onward_claimCell (t : Tenure terms keys calls s)
    (hc : calls c = ⟨key, mode, offer, .reading e⟩ :: rest) (lazy : e.resolution.isLazy)
    {r : Option Instance}
    (hp : (Action.claimCell e.slot).perform c tr s = some (r, tr', s')) :
    tr' = tr ∧ Onward terms keys calls c ⟨key, mode, offer, .reading e⟩ rest (.claimCell e.slot) r
      s' := by
  have known := t.known c _ (hc ▸ List.mem_cons_self) e rfl
  simp only [Action.perform] at hp
  cases hl : (s.slot e.slot).cell with
  | empty =>
      simp only [hl, Option.some.injEq, Prod.mk.injEq] at hp
      obtain ⟨rfl, rfl, rfl⟩ := hp
      exact ⟨rfl, keys, _, List.prefix_refl _, .claimCell lazy, t.claimCell hc hl⟩
  | filling holder => simp [hl] at hp
  | full inst =>
      simp only [hl, Option.some.injEq, Prod.mk.injEq] at hp
      obtain ⟨rfl, rfl, rfl⟩ := hp
      obtain ⟨-, hi, hik⟩ := t.full_key (t.key_of_slot hc e.slot rfl) known hl
      exact ⟨rfl, keys, _, List.prefix_refl _, .share lazy hi hik, t.settle hc hl⟩

theorem onward_fillCell (t : Tenure terms keys calls s) {inst : Instance}
    (hc : calls c = ⟨key, mode, offer, .made e (.ok inst)⟩ :: rest) (lazy : e.resolution.isLazy)
    (hi : terms.inst inst) (hk : inst.key = key) {r : Unit}
    (hp : (Action.fillCell e.slot inst).perform c tr s = some (r, tr', s')) :
    tr' = tr ∧ Onward terms keys calls c ⟨key, mode, offer, .made e (.ok inst)⟩ rest
      (.fillCell e.slot inst) r s' := by
  simp only [Action.perform, Option.some.injEq, Prod.mk.injEq] at hp
  obtain ⟨-, rfl, rfl⟩ := hp
  refine ⟨rfl, keys, _, List.prefix_refl _, .fill lazy hi hk,
    t.freeCell hc lazy ?_ rfl rfl ?_ rfl ?_ ?_ ?_⟩ <;>
    simp [Stage.slot?, Stage.gate?, Stage.entry?, Stage.cached?, hi, hk]

theorem onward_freeCell (t : Tenure terms keys calls s) {error : ResolveError}
    (hc : calls c = ⟨key, mode, offer, .made e (.error error)⟩ :: rest)
    (lazy : e.resolution.isLazy) {r : Unit}
    (hp : (Action.freeCell e.slot).perform c tr s = some (r, tr', s')) :
    tr' = tr ∧ Onward terms keys calls c ⟨key, mode, offer, .made e (.error error)⟩ rest
      (.freeCell e.slot) r s' := by
  simp only [Action.perform, Option.some.injEq, Prod.mk.injEq] at hp
  obtain ⟨-, rfl, rfl⟩ := hp
  refine ⟨rfl, keys, _, List.prefix_refl _, .unfill lazy,
    t.freeCell hc lazy ?_ rfl rfl ?_ rfl ?_ ?_ ?_⟩ <;>
    simp [Stage.slot?, Stage.gate?, Stage.entry?, Stage.cached?]

end Steps

/-- What the registry answers to a step of the innermost call is a response that the step may have,
and tenure is kept. -/
theorem own (t : Tenure terms keys calls s)
    (hc : calls c = ⟨key, mode, offer, stage⟩ :: rest) {a : Action} {r₀ : a.Response}
    {stage₀ : Stage} (hn : stage.Next terms key offer a r₀ stage₀) {tr tr' : Trail}
    {r : a.Response} {s' : Store} (hp : a.perform c tr s = some (r, tr', s')) :
    tr' = tr ∧ Onward terms keys calls c ⟨key, mode, offer, stage⟩ rest a r s' := by
  cases hn with
  | find | absent =>
      simp only [Action.perform, Option.some.injEq, Prod.mk.injEq] at hp
      obtain ⟨rfl, rfl, rfl⟩ := hp
      exact ⟨rfl, t.onward_find hc⟩
  | claim =>
      simp only [Action.perform, Option.some.injEq, Prod.mk.injEq] at hp
      obtain ⟨rfl, rfl, rfl⟩ := hp
      obtain ⟨keys', grown, t'⟩ := t.claim hc
      exact ⟨rfl, keys', _, grown, .claim, t'⟩
  | hit | miss =>
      simp only [Action.perform, Option.some.injEq, Prod.mk.injEq] at hp
      obtain ⟨rfl, rfl, rfl⟩ := hp
      exact ⟨rfl, t.onward_read hc⟩
  | pass | confirm =>
      simp only [Action.perform, Option.some.injEq, Prod.mk.injEq] at hp
      obtain ⟨rfl, rfl, rfl⟩ := hp
      exact ⟨rfl, t.onward_confirm hc⟩
  | tryGate | gateHeld => exact t.onward_tryGate hc hp
  | takeGate => exact t.onward_takeGate hc hp
  | attempt ho =>
      exact t.onward_beginRun hc (fun _ => .attempt ho) (fun _ => rfl) hp
  | makeFresh lazy hpr =>
      refine t.onward_beginRun hc (fun _ => .makeFresh lazy hpr) (fun _ => ?_) hp
      simp [Stage.view, Stage.gate?, Stage.cell?, Stage.entry?, Stage.vacancy?, Stage.slot?,
        Stage.cached?, lazy]
  | makeShared lazy hpr =>
      refine t.onward_beginRun hc (fun _ => .makeShared lazy hpr) (fun _ => ?_) hp
      simp [Stage.view, Stage.gate?, Stage.cell?, Stage.entry?, Stage.vacancy?, Stage.slot?,
        Stage.cached?, lazy]
  | tried => exact t.onward_endRun hc (fun _ => .tried) (fun _ => rfl) hp
  | made => exact t.onward_endRun hc (fun _ => .made) (fun _ => rfl) hp
  | publish suits hi ho =>
      refine t.onward_publish hc rfl rfl ?_ suits (.publish suits hi ho) hp
      simp [Stage.slot?, Stage.gate?]
  | publishMade suits hi =>
      refine t.onward_publish hc rfl rfl ?_ suits (.publishMade suits hi) hp
      simp [Stage.slot?, Stage.gate?]
  | tell h => exact t.onward_observe hc (.tell h) rfl hp
  | observe h => exact t.onward_observe hc (.observe h) rfl hp
  | free =>
      refine t.onward_freeGate hc .free rfl ?_ ?_ rfl rfl ?_ rfl rfl hp <;>
        simp [Stage.slot?, Stage.gate?, Stage.entry?]
  | freePassed =>
      refine t.onward_freeGate hc .freePassed rfl ?_ ?_ rfl rfl ?_ rfl rfl hp <;>
        simp [Stage.slot?, Stage.gate?, Stage.entry?]
  | freeTried =>
      refine t.onward_freeGate hc .freeTried rfl ?_ ?_ rfl rfl ?_ rfl rfl hp <;>
        simp [Stage.slot?, Stage.gate?, Stage.entry?]
  | see | unseen => exact t.onward_readCell hc hp
  | share lazy | claimCell lazy => exact t.onward_claimCell hc lazy hp
  | fill lazy hi hk => exact t.onward_fillCell hc lazy hi hk hp
  | unfill lazy => exact t.onward_freeCell hc lazy hp

/-- What the registry answers to a step that is open to a client is a response that the step may
have, the trail is again that of the calls under way, and tenure is kept. -/
theorem perform (t : Tenure terms keys calls s) (only : ∀ me, terms.alone = some me → c = me)
    {a : Action} (ho : Open terms (calls c) a) {r : a.Response} {tr : Trail} {s' : Store}
    (hp : a.perform c (trailOf (calls c)) s = some (r, tr, s'))
    (told : ∀ mode key offer e, a = .enter mode key offer →
      (trailOf (calls c)).refusal? key.name = some e → terms.refuses e) :
    ∃ keys' calls', keys <+: keys' ∧ Move terms (calls c) a r calls' ∧ tr = trailOf calls' ∧
      Tenure terms keys' (Function.update calls c calls') s' := by
  have ask {mode : Mode} {key : Key} {offer : Option ProducerId} (hc : Callable (calls c))
      (asked : terms.asks ((calls c).map Call.key) key) {r : Except ResolveError (List String)}
      (hp : (Action.enter mode key offer).perform c (trailOf (calls c)) s = some (r, tr, s'))
      (told : ∀ e, (trailOf (calls c)).refusal? key.name = some e → terms.refuses e) :
      ∃ keys' calls', keys <+: keys' ∧
        Move terms (calls c) (.enter mode key offer) r calls' ∧ tr = trailOf calls' ∧
          Tenure terms keys' (Function.update calls c calls') s' := by
    cases hr : (trailOf (calls c)).refusal? key.name with
    | none =>
        simp only [Action.perform, hr, Option.some.injEq, Prod.mk.injEq] at hp
        obtain ⟨rfl, rfl, rfl⟩ := hp
        exact ⟨keys, _, List.prefix_refl _, .enter hc hr asked, rfl,
          t.restate only ⟨hc, hr, t.nested c⟩ (.push rfl)⟩
    | some e =>
        simp only [Action.perform, hr, Option.some.injEq, Prod.mk.injEq] at hp
        obtain ⟨rfl, rfl, rfl⟩ := hp
        refine ⟨keys, _, List.prefix_refl _, .refuse hc hr asked (told e hr), rfl, ?_⟩
        rwa [Function.update_eq_self]
  cases ho with
  | ask hc asked => exact ask hc asked hp fun e => told _ _ _ e rfl
  | @move _ r₀ calls₀ hm =>
      generalize hcs : calls c = cs at hm hp
      cases hm with
      | @own call rest _ _ stage₀ hn =>
          obtain ⟨key, mode, offer, stage⟩ := call
          obtain ⟨rfl, keys', stage', hk, hn', t'⟩ := t.own hcs hn hp
          exact ⟨keys', _, hk, .own hn', rfl, t'⟩
      | enter hc _ asked | refuse hc _ asked =>
          subst hcs
          exact ask hc asked hp fun e => told _ _ _ e rfl
      | @leave call _ result he given =>
          simp only [Action.perform, leave?_trailOf, Option.map_some, Option.some.injEq,
            Prod.mk.injEq] at hp
          obtain ⟨-, rfl, rfl⟩ := hp
          have nested := t.nested c
          rw [hcs] at nested
          exact ⟨keys, _, List.prefix_refl _, .leave he given, rfl,
            t.restate only nested.2.2 (hcs ▸ .pop he.free)⟩
      | aside hc ha =>
          obtain ⟨rfl, hs, hi⟩ := Action.perform_aside ha hp
          refine ⟨keys, _, List.prefix_refl _, .aside hc ha, rfl, ?_⟩
          rw [← hcs, Function.update_eq_self]
          exact t.aside hs hi

/-- The call that takes what another one holds, holds nothing itself, and both are for one key. -/
theorem held (t : Tenure terms keys calls s) {a : Action} (ho : Open terms (calls c) a)
    {holder : ClientId} (hh : a.holder? s = some holder) :
    ∃ call rest, calls c = call :: rest ∧ call.stage.gate? = none ∧ call.stage.cell? = none ∧
      ∃ x ∈ calls holder, x.key = call.key ∧
        (x.stage.gate?.isSome ∨ x.stage.cell?.isSome) := by
  cases ho with
  | ask => cases hh
  | @move _ r₀ calls₀ hm =>
      generalize hcs : calls c = cs at hm
      cases hm with
      | @own call rest _ _ stage₀ hn =>
          obtain ⟨key, mode, offer, stage⟩ := call
          refine ⟨_, rest, rfl, ?_⟩
          have waiting {slot : SlotId} (hk : keys[slot]? = some key) {x : Call}
              (hx : x ∈ calls holder) (slotted : x.stage.slot? = some slot) : x.key = key :=
            Option.some.inj ((t.slot holder x hx slot slotted).symm.trans hk)
          cases hn with
          | @takeGate slot =>
              obtain ⟨x, hx, held⟩ := (t.gate slot holder).1 hh
              exact ⟨rfl, rfl, x, hx, waiting (t.key_of_slot hcs slot rfl) hx
                (Stage.slot?_of_gate? held), .inl (Option.isSome_of_eq_some held)⟩
          | @claimCell e hl | @share e _ hl _ _ =>
              obtain ⟨x, hx, held⟩ := (t.cell e.slot holder).1 (Cell.holder?_eq_some_iff.1 hh)
              exact ⟨rfl, rfl, x, hx, waiting (t.key_of_slot hcs e.slot rfl) hx
                (Stage.slot?_of_cell? held), .inr (Option.isSome_of_eq_some held)⟩
          | _ => cases hh
      | aside hc ha =>
          cases a with
          | takeGate | claimCell => cases ha
          | _ => cases hh
      | _ => cases hh

/-- A step has to wait only for what another call holds. -/
theorem waits (t : Tenure terms keys calls s) {a : Action} (ho : Open terms (calls c) a)
    (hw : a.perform c (trailOf (calls c)) s = none) :
    ∃ call rest, calls c = call :: rest ∧ call.stage.gate? = none ∧ call.stage.cell? = none ∧
      ∃ holder, ∃ x ∈ calls holder, x.key = call.key ∧
        (x.stage.gate?.isSome ∨ x.stage.cell?.isSome) := by
  obtain ⟨holder, hh⟩ := ho.perform_eq_none_iff.1 hw
  obtain ⟨call, rest, top, hg, hl, x, there⟩ := t.held ho hh
  exact ⟨call, rest, top, hg, hl, holder, x, there⟩

/-- A client that makes calls alone never has to wait. -/
theorem perform_ne_none (t : Tenure terms keys calls s) (alone : terms.alone = some c)
    {a : Action} (ho : Open terms (calls c) a) :
    a.perform c (trailOf (calls c)) s ≠ none := by
  intro hw
  obtain ⟨call, rest, hcs, hg, hl, holder, x, hx, hk, held⟩ := t.waits ho hw
  obtain rfl : holder = c := by
    by_contra hne
    rw [t.alone c alone holder hne] at hx
    cases hx
  rw [hcs] at hx
  cases hx with
  | head => simp [hg, hl] at held
  | tail _ hx =>
      have nested := (hcs ▸ t.nested holder).pairwise
      exact (List.pairwise_cons.1 nested).1 x hx (congrArg Key.name hk.symm)

end Tenure

end Wiring.Registry
