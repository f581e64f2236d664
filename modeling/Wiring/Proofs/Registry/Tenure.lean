import Wiring.Proofs.Registry.Conduct
import Mathlib.Logic.Function.Basic

/-!
What the registry and the calls under way say of each other. A gate or a cell that is held is held
by one call of the client it names, an entry that a call knows of is there, and a slot that a call
knows to be vacant is. Every step that is open to a client preserves this.
-/
namespace Wiring.Registry

namespace Store

theorem slot_update (s : Store) {id : SlotId} (h : id < s.slots.length) (f : Slot → Slot) :
    (s.update id f).slot id = f (s.slot id) := by
  simp [slot, update, List.getElem?_eq_getElem h]

theorem slot_update_of_ne (s : Store) {id j : SlotId} (h : j ≠ id) (f : Slot → Slot) :
    (s.update id f).slot j = s.slot j := by
  simp [slot, update, Ne.symm h]

@[simp] theorem length_update (s : Store) (id : SlotId) (f : Slot → Slot) :
    (s.update id f).slots.length = s.slots.length := by
  simp [update]

@[simp] theorem slotOf?_update (s : Store) (id : SlotId) (f : Slot → Slot) (key : Key) :
    (s.update id f).slotOf? key = s.slotOf? key := rfl

theorem slot_append (s : Store) (id : SlotId) (index : List (Key × SlotId)) :
    ({ s with slots := s.slots ++ [.fresh], index } : Store).slot id = s.slot id := by
  simp only [slot, List.getElem?_append]
  split
  · rfl
  · next h =>
      rw [List.getElem?_eq_none (l := s.slots) (by omega)]
      cases id - s.slots.length <;> rfl

end Store

/-- Who holds what. `keys` are the keys of the slots, which stay with them when a reset drops them
from the index. -/
structure Tenure (terms : Terms) (keys : List Key) (calls : ClientId → List Call) (s : Store) :
    Prop where
  length : keys.length = s.slots.length
  index : ∀ key id, s.slotOf? key = some id → keys[id]? = some key
  nested : ∀ c, Nested (calls c)
  slot : ∀ c, ∀ call ∈ calls c, ∀ id, call.stage.slot? = some id → keys[id]? = some call.key
  entry : ∀ id e, (s.slot id).entry = some e → ∃ key, keys[id]? = some key ∧ e.Suits terms key id
  known : ∀ c, ∀ call ∈ calls c, ∀ e, call.stage.entry? = some e →
    (s.slot e.slot).entry = some e
  vacant : ∀ c, ∀ call ∈ calls c, ∀ id, call.stage.vacancy? = some id → (s.slot id).entry = none
  gate : ∀ id c, (s.slot id).gate = some c ↔ ∃ call ∈ calls c, call.stage.gate? = some id
  cell : ∀ id c, (s.slot id).cell = .filling c ↔ ∃ call ∈ calls c, call.stage.cell? = some id
  full : ∀ id inst, (s.slot id).cell = .full inst → ∃ e, (s.slot id).entry = some e ∧
    e.resolution.isLazy ∧ inst.key = e.key ∧ terms.inst inst
  cached : ∀ c, ∀ call ∈ calls c, ∀ e inst, call.stage.cached? = some (e, inst) →
    (s.slot e.slot).cell = .full inst
  alone : ∀ me, terms.alone = some me → ∀ c, c ≠ me → calls c = []

namespace Stage

theorem slot?_of_gate? {s : Stage} {id : SlotId} (h : s.gate? = some id) : s.slot? = some id := by
  cases s <;> simp_all [gate?, slot?]

theorem slot?_of_entry? {s : Stage} {e : Entry} (h : s.entry? = some e) :
    s.slot? = some e.slot := by
  cases s <;> simp_all [gate?, slot?, entry?]

theorem slot?_of_cell? {s : Stage} {id : SlotId} (h : s.cell? = some id) : s.slot? = some id := by
  cases s <;> simp_all [gate?, slot?, entry?, cell?]

theorem gate?_of_vacancy? {s : Stage} {id : SlotId} (h : s.vacancy? = some id) :
    s.gate? = some id := by
  cases s <;> simp_all [gate?, vacancy?]

theorem entry?_of_cached? {s : Stage} {e : Entry} {inst : Instance}
    (h : s.cached? = some (e, inst)) : s.entry? = some e := by
  cases s <;> simp_all [cached?, entry?]

theorem entry?_of_cell? {s : Stage} {id : SlotId} (h : s.cell? = some id) :
    ∃ e, s.entry? = some e ∧ e.slot = id ∧ (s.cell? = some e.slot) := by
  cases s <;> simp_all [cell?, entry?]

end Stage

variable {terms : Terms} {keys : List Key} {calls : ClientId → List Call} {s : Store}
  {c : ClientId} {call : Call} {rest : List Call}

namespace Tenure

theorem slot_ne_of_mem_rest (t : Tenure terms keys calls s) (hc : calls c = call :: rest)
    {id : SlotId} (hk : keys[id]? = some call.key) {other : Call} (ho : other ∈ rest) :
    other.stage.slot? ≠ some id := by
  intro hs
  have hn := (hc ▸ t.nested c).pairwise
  have hk' := t.slot c other (hc ▸ List.mem_cons_of_mem _ ho) id hs
  exact (List.pairwise_cons.1 hn).1 other ho (by rw [Option.some.inj (hk.symm.trans hk')])

theorem lt_length (t : Tenure terms keys calls s) {id : SlotId} {key : Key}
    (h : keys[id]? = some key) : id < s.slots.length :=
  t.length ▸ (List.getElem?_eq_some_iff.1 h).1

/-- What stands in the slot of a key suits the key. -/
theorem suits (t : Tenure terms keys calls s) {id : SlotId} {key : Key} {e : Entry}
    (hk : keys[id]? = some key) (he : (s.slot id).entry = some e) : e.Suits terms key id := by
  obtain ⟨k, hk', suits⟩ := t.entry id e he
  cases hk.symm.trans hk'
  exact suits

/-- A call under way after a step of one call is the one that took the step, or it was there
before. -/
theorem mem_update (t : Tenure terms keys calls s) (hc : calls c = call :: rest) {id : SlotId}
    (hk : keys[id]? = some call.key) {stage : Stage} {c' : ClientId} {x : Call}
    (hx : x ∈ Function.update calls c ({ call with stage } :: rest) c') :
    (c' = c ∧ x = { call with stage }) ∨
      (x ∈ calls c' ∧ (c' = c → x.stage.slot? ≠ some id)) := by
  by_cases hcc : c' = c
  · subst hcc
    rw [Function.update_self] at hx
    cases List.mem_cons.1 hx with
    | inl eq =>
        subst eq
        exact .inl ⟨rfl, rfl⟩
    | inr hx =>
        exact .inr ⟨hc ▸ List.mem_cons_of_mem _ hx, fun _ => t.slot_ne_of_mem_rest hc hk hx⟩
  · rw [Function.update_of_ne hcc] at hx
    exact .inr ⟨hx, fun h => absurd h hcc⟩

/-- Who holds something of a slot, after a call of `c` that knows slot `id` alone took a step. -/
theorem holder_iff (t : Tenure terms keys calls s) (hc : calls c = call :: rest) {id : SlotId}
    (hk : keys[id]? = some call.key) {stage : Stage} (f : Stage → Option SlotId)
    (hf : ∀ st i, f st = some i → st.slot? = some i)
    (before : ∀ i, call.stage.slot? = some i → i = id) (after : ∀ i, stage.slot? = some i → i = id)
    (held held' : SlotId → ClientId → Prop)
    (old : ∀ i c', held i c' ↔ ∃ x ∈ calls c', f x.stage = some i)
    (other : ∀ i c', i ≠ id → (held' i c' ↔ held i c'))
    (here : ∀ c', held' id c' ↔ if c' = c then f stage = some id else held id c')
    (i : SlotId) (c' : ClientId) :
    held' i c' ↔
      ∃ x ∈ Function.update calls c ({ call with stage } :: rest) c', f x.stage = some i := by
  have free : ¬∃ x ∈ rest, f x.stage = some id := fun ⟨x, hx, hs⟩ =>
    t.slot_ne_of_mem_rest hc hk hx (hf _ _ hs)
  by_cases hcc : c' = c
  · subst hcc
    rw [Function.update_self]
    by_cases hi : i = id
    · subst hi
      simp only [here, if_true, List.mem_cons, exists_eq_or_imp, free, or_false]
    · have now : ¬f stage = some i := fun h => hi (after i (hf _ _ h))
      have was : ¬f call.stage = some i := fun h => hi (before i (hf _ _ h))
      rw [other i c' hi, old, hc]
      simp only [List.mem_cons, exists_eq_or_imp, now, was]
  · rw [Function.update_of_ne hcc, ← old]
    by_cases hi : i = id
    · subst hi
      simp only [here, if_neg hcc]
    · exact other i c' hi

end Tenure

/-- A step of a call of `c` in the one slot that it knows, which goes from `old` to `new`. -/
structure Change (terms : Terms) (c : ClientId) (call : Call) (id : SlotId) (stage : Stage)
    (old new : Slot) : Prop where
  before : ∀ i, call.stage.slot? = some i → i = id
  after : ∀ i, stage.slot? = some i → i = id
  gate : ∀ c', new.gate = some c' ↔ if c' = c then stage.gate? = some id else old.gate = some c'
  cell : ∀ c', new.cell = .filling c' ↔
    if c' = c then stage.cell? = some id else old.cell = .filling c'
  entry : new.entry = old.entry ∨ ∃ e, old.entry = none ∧ new.entry = some e ∧
    e.Suits terms call.key id ∧ call.stage.gate? = some id
  known : ∀ e, stage.entry? = some e → new.entry = some e
  vacant : stage.vacancy? = some id → new.entry = none
  full : ∀ inst, new.cell = .full inst → old.cell = .full inst ∨ ∃ e, new.entry = some e ∧
    e.resolution.isLazy ∧ inst.key = e.key ∧ terms.inst inst
  kept : ∀ inst, old.cell = .full inst → new.cell = .full inst
  cached : ∀ e inst, stage.cached? = some (e, inst) → new.cell = .full inst

theorem Change.entry_kept {id : SlotId} {stage : Stage} {old new : Slot}
    (ch : Change terms c call id stage old new) {e : Entry} (he : old.entry = some e) :
    new.entry = some e := by
  cases ch.entry with
  | inl h => exact h.trans he
  | inr published =>
      obtain ⟨e', vacant, -⟩ := published
      simp [vacant] at he

namespace Tenure

/-- A slot that another call knows to be vacant stays vacant. -/
theorem vacant_kept (t : Tenure terms keys calls s) (hc : calls c = call :: rest) {id : SlotId}
    {stage : Stage} {new : Slot} (ch : Change terms c call id stage (s.slot id) new) {c' : ClientId}
    {x : Call} (hx : x ∈ calls c') (hne : c' = c → x.stage.slot? ≠ some id)
    (hv : x.stage.vacancy? = some id) : new.entry = none := by
  cases ch.entry with
  | inl h => exact h.trans (t.vacant c' x hx id hv)
  | inr published =>
      obtain ⟨e, -, -, -, hg⟩ := published
      have hg' := Stage.gate?_of_vacancy? hv
      have mine := (t.gate id c).2 ⟨call, by simp [hc], hg⟩
      have its := (t.gate id c').2 ⟨x, hx, hg'⟩
      have hcc : c' = c := Option.some.inj (its.symm.trans mine)
      exact absurd (Stage.slot?_of_gate? hg') (hne hcc)

section Changes

variable {id : SlotId} {stage : Stage} {s' : Store} {c' : ClientId} {x : Call}

theorem slot_change (t : Tenure terms keys calls s) (hc : calls c = call :: rest)
    (hk : keys[id]? = some call.key) (after : ∀ i, stage.slot? = some i → i = id)
    (hx : x ∈ Function.update calls c ({ call with stage } :: rest) c') {i : SlotId}
    (hi : x.stage.slot? = some i) : keys[i]? = some x.key := by
  cases t.mem_update hc hk hx with
  | inl same =>
      obtain ⟨rfl, rfl⟩ := same
      rw [after i hi]
      exact hk
  | inr other => exact t.slot c' x other.1 i hi

variable (others : ∀ i, i ≠ id → s'.slot i = s.slot i)
  (ch : Change terms c call id stage (s.slot id) (s'.slot id))

include others ch

theorem entry_stays {i : SlotId} {e : Entry} (he : (s.slot i).entry = some e) :
    (s'.slot i).entry = some e := by
  by_cases hi : i = id
  · subst hi
    exact ch.entry_kept he
  · rw [others i hi, he]

theorem entry_change (t : Tenure terms keys calls s) (hk : keys[id]? = some call.key) {i : SlotId}
    {e : Entry} (he : (s'.slot i).entry = some e) :
    ∃ key, keys[i]? = some key ∧ e.Suits terms key i := by
  by_cases hi : i = id
  · subst hi
    cases ch.entry with
    | inl same => exact t.entry i e (same ▸ he)
    | inr published =>
        obtain ⟨e', -, new, suits, -⟩ := published
        cases new.symm.trans he
        exact ⟨_, hk, suits⟩
  · exact t.entry i e (others i hi ▸ he)

theorem known_change (t : Tenure terms keys calls s) (hc : calls c = call :: rest)
    (hk : keys[id]? = some call.key)
    (hx : x ∈ Function.update calls c ({ call with stage } :: rest) c') {e : Entry}
    (he : x.stage.entry? = some e) : (s'.slot e.slot).entry = some e := by
  cases t.mem_update hc hk hx with
  | inl same =>
      obtain ⟨rfl, rfl⟩ := same
      rw [ch.after _ (Stage.slot?_of_entry? he)]
      exact ch.known e he
  | inr other => exact entry_stays others ch (t.known c' x other.1 e he)

theorem vacant_change (t : Tenure terms keys calls s) (hc : calls c = call :: rest)
    (hk : keys[id]? = some call.key)
    (hx : x ∈ Function.update calls c ({ call with stage } :: rest) c') {i : SlotId}
    (hi : x.stage.vacancy? = some i) : (s'.slot i).entry = none := by
  cases t.mem_update hc hk hx with
  | inl same =>
      obtain ⟨rfl, rfl⟩ := same
      obtain rfl := ch.after i (Stage.slot?_of_gate? (Stage.gate?_of_vacancy? hi))
      exact ch.vacant hi
  | inr other =>
      obtain ⟨hx, hne⟩ := other
      by_cases hii : i = id
      · subst hii
        exact t.vacant_kept hc ch hx hne hi
      · rw [others i hii]
        exact t.vacant c' x hx i hi

theorem gate_change (t : Tenure terms keys calls s) (hc : calls c = call :: rest)
    (hk : keys[id]? = some call.key) (i : SlotId) (c' : ClientId) :
    (s'.slot i).gate = some c' ↔
      ∃ x ∈ Function.update calls c ({ call with stage } :: rest) c', x.stage.gate? = some i :=
  t.holder_iff hc hk Stage.gate? (fun _ _ => Stage.slot?_of_gate?) ch.before ch.after
    (fun i c' => (s.slot i).gate = some c') (fun i c' => (s'.slot i).gate = some c') t.gate
    (fun i c' hi => by rw [others i hi]) ch.gate i c'

theorem cell_change (t : Tenure terms keys calls s) (hc : calls c = call :: rest)
    (hk : keys[id]? = some call.key) (i : SlotId) (c' : ClientId) :
    (s'.slot i).cell = .filling c' ↔
      ∃ x ∈ Function.update calls c ({ call with stage } :: rest) c', x.stage.cell? = some i :=
  t.holder_iff hc hk Stage.cell? (fun _ _ => Stage.slot?_of_cell?) ch.before ch.after
    (fun i c' => (s.slot i).cell = .filling c') (fun i c' => (s'.slot i).cell = .filling c')
    t.cell (fun i c' hi => by rw [others i hi]) ch.cell i c'

theorem full_change (t : Tenure terms keys calls s) {i : SlotId} {inst : Instance}
    (hf : (s'.slot i).cell = .full inst) : ∃ e, (s'.slot i).entry = some e ∧
      e.resolution.isLazy ∧ inst.key = e.key ∧ terms.inst inst := by
  have old (h : (s.slot i).cell = .full inst) : ∃ e, (s'.slot i).entry = some e ∧
      e.resolution.isLazy ∧ inst.key = e.key ∧ terms.inst inst := by
    obtain ⟨e, he, rest⟩ := t.full i inst h
    exact ⟨e, entry_stays others ch he, rest⟩
  by_cases hi : i = id
  · subst hi
    exact (ch.full inst hf).elim old id
  · rw [others i hi] at hf
    exact old hf

theorem cached_change (t : Tenure terms keys calls s) (hc : calls c = call :: rest)
    (hk : keys[id]? = some call.key)
    (hx : x ∈ Function.update calls c ({ call with stage } :: rest) c') {e : Entry}
    {inst : Instance} (hs : x.stage.cached? = some (e, inst)) :
    (s'.slot e.slot).cell = .full inst := by
  cases t.mem_update hc hk hx with
  | inl same =>
      obtain ⟨rfl, rfl⟩ := same
      rw [ch.after _ (Stage.slot?_of_entry? (Stage.entry?_of_cached? hs))]
      exact ch.cached e inst hs
  | inr other =>
      have old := t.cached c' x other.1 e inst hs
      by_cases hi : e.slot = id
      · rw [hi] at old ⊢
        exact ch.kept inst old
      · rw [others _ hi]
        exact old

end Changes

theorem nested_update (t : Tenure terms keys calls s) {calls' : List Call} (nested : Nested calls')
    (c' : ClientId) : Nested (Function.update calls c calls' c') := by
  by_cases hcc : c' = c
  · subst hcc
    rwa [Function.update_self]
  · rw [Function.update_of_ne hcc]
    exact t.nested c'

/-- Where one client makes calls alone, whoever makes one is that client. -/
theorem only_caller (t : Tenure terms keys calls s) (hc : calls c ≠ []) :
    ∀ me, terms.alone = some me → c = me := by
  intro me alone
  by_contra hne
  exact hc (t.alone me alone c hne)

theorem alone_update (t : Tenure terms keys calls s) (only : ∀ me, terms.alone = some me → c = me)
    {calls' : List Call} {me : ClientId} (alone : terms.alone = some me) {c' : ClientId}
    (hne : c' ≠ me) : Function.update calls c calls' c' = [] := by
  have hcc : c' ≠ c := fun h => hne (h.trans (only me alone))
  rw [Function.update_of_ne hcc]
  exact t.alone me alone c' hne

/-- A call that has changed its slot as it may leaves everything else as it was. -/
theorem change (t : Tenure terms keys calls s) (hc : calls c = call :: rest) {id : SlotId}
    (hk : keys[id]? = some call.key) {stage : Stage} {s' : Store}
    (length : s'.slots.length = s.slots.length)
    (index : ∀ key, s'.slotOf? key = s.slotOf? key)
    (others : ∀ i, i ≠ id → s'.slot i = s.slot i)
    (ch : Change terms c call id stage (s.slot id) (s'.slot id)) :
    Tenure terms keys (Function.update calls c ({ call with stage } :: rest)) s' where
  length := t.length.trans length.symm
  index key i h := t.index key i (index key ▸ h)
  nested := by
    have nested := t.nested c
    rw [hc] at nested
    exact t.nested_update nested
  slot _ _ hx _ := t.slot_change hc hk ch.after hx
  entry _ _ := t.entry_change others ch hk
  known _ _ hx _ := t.known_change others ch hc hk hx
  vacant _ _ hx _ := t.vacant_change others ch hc hk hx
  gate := t.gate_change others ch hc hk
  cell := t.cell_change others ch hc hk
  full _ _ := t.full_change others ch
  cached _ _ hx _ _ := t.cached_change others ch hc hk hx
  alone _ alone _ hne := t.alone_update (t.only_caller (by simp [hc])) alone hne

end Tenure

end Wiring.Registry
