import Wiring.Proofs.Registry.Completion
import Wiring.Proofs.Registry.Record
import Wiring.Proofs.Registry.Refusal

/-!
Clients that wait for one another. A trail names the resolutions of one client alone, so a circle of
keys that several clients are in the middle of is refused to none of them. Each waits for a gate or
a cell that the next one holds, and a ring of such clients stands still for ever; but there is no
ring without a circle in what the producers ask for.
-/
namespace Wiring.Registry

def Machine.holder? (m : Machine) (c : ClientId) : Option ClientId :=
  match m.clients[c]? with
  | some ⟨_, .step a _⟩ => a.holder? m.store
  | _ => none

def Machine.WaitsFor (m : Machine) (c d : ClientId) : Prop := m.holder? c = some d

instance (m : Machine) (c d : ClientId) : Decidable (m.WaitsFor c d) :=
  inferInstanceAs (Decidable (_ = _))

/-- Client `c` is one of a ring of clients each of which waits for the next one. -/
def Machine.Ring (m : Machine) (c : ClientId) : Prop := Relation.TransGen m.WaitsFor c c

/-- A producer of `key` has asked for `key'`, whether it was refused or not. -/
def History.Requests (h : History) (key key' : Key) : Prop :=
  ∃ c mode offer r h', ⟨c, .enter mode key' offer, r⟩ :: h' <:+ h ∧
    (History.nesting c h').head?.map Prod.fst = some key

theorem History.Requests.mono {h h' : History} (hs : h <:+ h') {key key' : Key}
    (requests : h.Requests key key') : h'.Requests key key' := by
  obtain ⟨c, mode, offer, r, before, asked, top⟩ := requests
  exact ⟨c, mode, offer, r, before, asked.trans hs, top⟩

theorem Linked.mono {types : Key → Prop} {needs needs' : Key → Key → Prop}
    (sub : ∀ k k', needs k k' → needs' k k') {keys : List Key} (linked : Linked types needs keys) :
    Linked types needs' keys := by
  induction keys with
  | nil => trivial
  | cons key keys ih =>
      obtain ⟨⟨typed, asked⟩, linked⟩ := linked
      exact ⟨⟨typed, fun outer h => sub _ _ (asked outer h)⟩, ih linked⟩

/-- The calls under way are those that the history shows, and each was asked for by the producer of
the one around it. -/
def Chained (keys : List Key) (calls : ClientId → List Call) (s : Store) (h : History) : Prop :=
  Nests keys calls s h ∧ ∀ c, Linked (fun _ => True) h.Requests ((calls c).map Call.key)

theorem chained_kept (terms : Terms) : Kept terms Chained := by
  intro keys calls s c a r calls' keys' s' h taken old
  obtain ⟨nests, linked⟩ := old
  refine ⟨nests_kept _ taken nests, fun c' => ?_⟩
  have chain := (linked c').mono fun _ _ =>
    History.Requests.mono (List.suffix_cons (⟨c, a, r⟩ : Performed) h)
  by_cases hc : c' = c
  · subst hc
    have now := nests c'
    have move := taken.move
    rw [Function.update_self]
    generalize calls c' = cs at move chain now
    cases move with
    | own => exact chain
    | enter =>
        refine ⟨⟨trivial, fun outer top => ?_⟩, chain⟩
        refine ⟨c', _, _, _, h, List.suffix_refl _, ?_⟩
        rw [now, ← top, nestingOf, List.head?_map, List.head?_map, Option.map_map]
        rfl
    | leave => exact chain.2
    | refuse | aside => exact chain
  · rwa [Function.update_of_ne hc]

section Waits

variable {terms : Terms} {ends : ClientId → List Reply → Prop} {m m' : Machine} {keys : List Key}
  {calls : ClientId → List Call} {needs : Key → Key → Prop} {c d : ClientId}

theorem Machine.WaitsFor.program (w : m.WaitsFor c d) :
    ∃ trail a next, m.clients[c]? = some ⟨trail, .step a next⟩ ∧ a.holder? m.store = some d := by
  unfold Machine.WaitsFor Machine.holder? at w
  split at w
  · next trail a next hc => exact ⟨trail, a, next, hc, w⟩
  · cases w

theorem Machine.Conducted.step_eq_none_iff (conducted : m.Conducted terms keys calls ends)
    {client : Client} (hc : m.clients[c]? = some client) :
    m.step c = none ↔ client.Finished ∨ ∃ d, m.WaitsFor c d := by
  obtain ⟨trail, program⟩ := client
  cases program with
  | done replies => simp [Machine.step, hc, Client.Finished]
  | step a next =>
      obtain rfl := conducted.trail c _ hc
      have ho := (conducted.abides c _ hc).1
      have waits := ho.perform_eq_none_iff (c := c) (s := m.store)
      simp only [Client.Finished, reduceCtorEq, exists_false, false_or, Machine.WaitsFor,
        Machine.holder?, hc]
      rw [← waits]
      exact ⟨Machine.perform_of_stuck hc, fun hp => by simp [Machine.step, hc, hp]⟩

theorem Machine.Conducted.step_of_waits (conducted : m.Conducted terms keys calls ends)
    (w : m.WaitsFor c d) : m.step c = none := by
  obtain ⟨trail, a, next, hc, -⟩ := w.program
  exact (conducted.step_eq_none_iff hc).2 (.inr ⟨d, w⟩)

/-- The call that waits holds nothing, and a call for the same key holds what it waits for. -/
theorem Machine.Conducted.held (conducted : m.Conducted terms keys calls ends)
    (w : m.WaitsFor c d) :
    ∃ call rest, calls c = call :: rest ∧ call.stage.gate? = none ∧ call.stage.cell? = none ∧
      ∃ x ∈ calls d, x.key = call.key ∧
        (x.stage.gate?.isSome ∨ x.stage.cell?.isSome) := by
  obtain ⟨trail, a, next, hc, held⟩ := w.program
  exact conducted.tenure.held (conducted.abides c _ hc).1 held

theorem Machine.Conducted.not_waits_self (conducted : m.Conducted terms keys calls ends) :
    ¬m.WaitsFor c c := by
  intro w
  obtain ⟨call, rest, top, hg, hl, x, hx, hk, held⟩ := conducted.held w
  have nested := conducted.tenure.nested c
  rw [top] at nested hx
  obtain rfl := Nested.eq_of_key nested hx List.mem_cons_self hk
  simp [hg, hl] at held

/-- Others change neither what a client waits for nor who holds it. -/
theorem Machine.WaitsFor.kept {keys' : List Key} {calls' : ClientId → List Call}
    (conducted : m.Conducted terms keys calls ends)
    (conducted' : m'.Conducted terms keys' calls' ends) (w : m.WaitsFor c d) {b : ClientId}
    (hs : m.step b = some m') (hc : b ≠ c) (same : calls' d = calls d) : m'.WaitsFor c d := by
  obtain ⟨trail, a, next, there, held⟩ := w.program
  have there' := (Machine.step_other hc hs).trans there
  simp only [Machine.WaitsFor, Machine.holder?, there']
  cases a with
  | takeGate slot =>
      rw [Action.holder?, conducted.tenure.gate] at held
      rwa [Action.holder?, conducted'.tenure.gate, same]
  | claimCell slot =>
      rw [Action.holder?, Cell.holder?_eq_some_iff, conducted.tenure.cell] at held
      rwa [Action.holder?, Cell.holder?_eq_some_iff, conducted'.tenure.cell, same]
  | _ => cases held

end Waits

/-- A way avoids whoever is related to nobody, unless it ends there. -/
theorem transGen_avoiding {α : Type} {r p : α → α → Prop} {a b z : α}
    (way : Relation.TransGen r a b) (idle : ∀ x, ¬r z x) (apart : b ≠ z)
    (imp : ∀ x y, r x y → x ≠ z → y ≠ z → p x y) : Relation.TransGen p a b := by
  have start {x y : α} (h : r x y) : x ≠ z := fun e => idle y (e ▸ h)
  induction way with
  | single h => exact .single (imp _ _ h (start h) apart)
  | tail _ h ih => exact (ih (start h)).tail (imp _ _ h (start h) apart)

section Machines

variable {setting : Setting} {jobs : List (List Demand)} {m m' : Machine} {c : ClientId}

theorem Machine.Reaches.chained (reach : (Machine.start setting jobs).Reaches m) :
    ∃ keys calls, m.Conducted (.plain setting.observers none) keys calls (fun _ _ => True) ∧
      Chained keys calls m.store m.history :=
  reach.conducted ⟨fun _ => rfl, fun _ => trivial⟩ (chained_kept _)

/-- A client of a ring takes no step, and those that do leave the ring as it is. -/
theorem Machine.Ring.step (reach : (Machine.start setting jobs).Reaches m) (ring : m.Ring c)
    {b : ClientId} (hs : m.step b = some m') : m'.Ring c := by
  obtain ⟨keys, calls, conducted, -⟩ := reach.chained
  obtain ⟨a, r, calls', keys', -, -, conducted'⟩ := conducted.step rfl hs (told_plain _)
  have idle (d : ClientId) : ¬m.WaitsFor b d := fun w => by
    cases (conducted.step_of_waits w).symm.trans hs
  have apart : c ≠ b := by
    obtain ⟨d, w, -⟩ := Relation.TransGen.head'_iff.1 ring
    exact fun e => idle d (e ▸ w)
  exact transGen_avoiding ring idle apart fun x y w hx hy =>
    w.kept conducted conducted' hs (Ne.symm hx) (Function.update_of_ne hy ..)

theorem Machine.Ring.reaches (reach : (Machine.start setting jobs).Reaches m) (ring : m.Ring c)
    (later : m.Reaches m') : m'.Ring c := by
  induction later with
  | start => exact ring
  | step later hs ih => exact ih.step (reach.trans later) hs

end Machines

end Wiring.Registry
