import Wiring.Proofs.Registry.Layers
import Wiring.Proofs.Registry.Reach
import Mathlib.Data.Fintype.Card
import Mathlib.Data.List.Perm.Basic
import Mathlib.Logic.Hydra

/-!
Clients that complete. A client that has to wait does so for a call of another one, and where
accessors need one another in one direction only, what that one waits for itself lies further down.
So some client can always go on, and since no client goes on for ever, all of them come to an end.
-/
namespace Wiring.Registry

/-- A program that is left over when another has taken a step. -/
inductive Program.Rest {α : Type} : Program α → Program α → Prop
  | step {a : Action} {next : a.Response → Program α} {r : a.Response} :
      Rest (next r) (.step a next)

theorem Program.acc_rest {α : Type} (p : Program α) : Acc Program.Rest p := by
  induction p with
  | done a => exact ⟨_, fun _ h => by cases h⟩
  | step a next ih =>
      refine ⟨_, fun _ h => ?_⟩
      cases h with
      | step => exact ih _

def Machine.left (m : Machine) : Multiset (Program (List Reply)) := m.clients.map Client.program

theorem Machine.left_step {m m' : Machine} {c : ClientId} (hs : m.step c = some m') :
    Relation.CutExpand Program.Rest m'.left m.left := by
  obtain ⟨trail, a, next, r, trail', store, hc, -, rfl⟩ := Machine.step_cases hs
  obtain ⟨hlt, hc⟩ := List.getElem?_eq_some_iff.1 hc
  have before := (List.getElem_cons_eraseIdx_perm hlt).map Client.program
  have after := (List.set_perm_cons_eraseIdx hlt ⟨trail', next r⟩).map Client.program
  rw [hc] at before
  unfold Machine.left
  rw [← Multiset.coe_eq_coe.2 before, Multiset.coe_eq_coe.2 after]
  simp only [List.map_cons, ← Multiset.cons_coe, ← Multiset.singleton_add]
  exact Relation.cutExpand_single_add Program.Rest.step _

/-- No machine takes steps for ever, whatever its clients do. -/
theorem Machine.wellFounded_step :
    WellFounded fun m' m : Machine => ∃ c, m.step c = some m' := by
  have shrinks : WellFounded (Relation.CutExpand (Program.Rest (α := List Reply))) :=
    WellFounded.cutExpand ⟨Program.acc_rest⟩
  refine Subrelation.wf (fun hs => ?_) (InvImage.wf Machine.left shrinks)
  obtain ⟨c, hs⟩ := hs
  exact Machine.left_step hs

def Client.Finished (client : Client) : Prop := ∃ replies, client.program = .done replies

section Waiting

variable {terms : Terms} {ends : ClientId → List Reply → Prop} {m : Machine} {keys : List Key}
  {calls : ClientId → List Call} {types : Key → Prop} {needs : Key → Key → Prop}

/-- A client that can take no step waits for a call of a client that has not finished. The two calls
are for one key, and the one that waits holds nothing. -/
theorem Machine.Conducted.waits (conducted : m.Conducted terms keys calls ends) {c : ClientId}
    {client : Client} (hc : m.clients[c]? = some client) (unfinished : ¬client.Finished)
    (stuck : m.step c = none) :
    ∃ call rest, calls c = call :: rest ∧ call.stage.gate? = none ∧ call.stage.cell? = none ∧
      ∃ holder other, m.clients[holder]? = some other ∧ ¬other.Finished ∧
        ∃ x ∈ calls holder, x.key = call.key ∧
          (x.stage.gate?.isSome ∨ x.stage.cell?.isSome) := by
  obtain ⟨trail, program⟩ := client
  cases program with
  | done replies => exact absurd ⟨replies, rfl⟩ unfinished
  | step a next =>
      obtain rfl := conducted.trail c _ hc
      obtain ⟨ho, -⟩ := conducted.abides c _ hc
      obtain ⟨call, rest, top, hg, hl, holder, x, hx, hk, held⟩ :=
        conducted.tenure.waits ho (Machine.perform_of_stuck hc stuck)
      refine ⟨call, rest, top, hg, hl, holder, ?_⟩
      cases hh : m.clients[holder]? with
      | none =>
          rw [conducted.absent holder hh] at hx
          cases hx
      | some other =>
          refine ⟨other, rfl, fun finished => ?_, x, hx, hk, held⟩
          obtain ⟨replies, hp⟩ := finished
          have post := conducted.abides holder other hh
          rw [hp] at post
          rw [post.2.1] at hx
          cases hx

/-- What client `c` is resolving needs in the end what client `d` is resolving. -/
def Below (needs : Key → Key → Prop) (calls : ClientId → List Call) (d c : ClientId) : Prop :=
  ∃ k k', (calls c).head?.map Call.key = some k ∧ (calls d).head?.map Call.key = some k' ∧
    Relation.TransGen needs k k'

theorem wellFounded_below (acyclic : ∀ k, ¬Relation.TransGen needs k k)
    (calls : ClientId → List Call) (n : Nat) :
    WellFounded fun d c : Fin n => Below needs calls d c := by
  have trans : IsTrans (Fin n) fun d c => Below needs calls d c := ⟨fun a b c hab hbc => by
    obtain ⟨k, k', hb, ha, way⟩ := hab
    obtain ⟨l, l', hc, hb', way'⟩ := hbc
    cases hb.symm.trans hb'
    exact ⟨l, k', hc, ha, way'.trans way⟩⟩
  have irrefl : Std.Irrefl fun d c : Fin n => Below needs calls d c := ⟨fun c hcc => by
    obtain ⟨k, k', h, h', way⟩ := hcc
    cases h.symm.trans h'
    exact acyclic k way⟩
  exact Finite.wellFounded_of_trans_of_irrefl _

/-- What is held is not held by the call that waits itself, so it is further out. -/
theorem Linked.further_out {call x : Call} {rest : List Call}
    (linked : Linked types needs ((call :: rest).map Call.key)) (gate : call.stage.gate? = none)
    (cell : call.stage.cell? = none) (hx : x ∈ call :: rest)
    (held : x.stage.gate?.isSome ∨ x.stage.cell?.isSome) :
    Relation.TransGen needs x.key call.key := by
  cases hx with
  | head => simp [gate, cell] at held
  | tail _ hx => exact linked.1.needed linked.2 x.key (List.mem_map_of_mem hx)

/-- Not all of those who have not finished wait, for what they wait for lies further and further
down. -/
theorem Machine.Conducted.goes_on (conducted : m.Conducted terms keys calls ends)
    (linked : ∀ c, Linked types needs ((calls c).map Call.key))
    (acyclic : ∀ k, ¬Relation.TransGen needs k k) :
    (∀ client ∈ m.clients, client.Finished) ∨ ∃ c m', m.step c = some m' := by
  by_contra stuck
  simp only [not_or, not_forall, not_exists] at stuck
  obtain ⟨⟨client, there, unfinished⟩, stuck⟩ := stuck
  have stuck (c : ClientId) : m.step c = none := Option.eq_none_iff_forall_ne_some.2 (stuck c)
  obtain ⟨i, hi, rfl⟩ := List.getElem_of_mem there
  obtain ⟨c, unfinished, lowest⟩ := (wellFounded_below acyclic calls m.clients.length).has_min
    {c | ¬m.clients[c].Finished} ⟨⟨i, hi⟩, unfinished⟩
  obtain ⟨call, rest, top, -, -, holder, other, there, busy, x, hx, hk, held⟩ :=
    conducted.waits (List.getElem?_eq_getElem c.isLt) unfinished (stuck c)
  obtain ⟨call', rest', top', hg, hl, -⟩ := conducted.waits there busy (stuck holder)
  obtain ⟨hlt, rfl⟩ := List.getElem?_eq_some_iff.1 there
  refine lowest ⟨holder, hlt⟩ busy ⟨call.key, call'.key, by simp [top], by simp [top'], ?_⟩
  rw [top'] at hx
  rw [← hk]
  exact (top' ▸ linked holder).further_out hg hl hx held

end Waiting

section History

variable {setting : Setting} {types : Key → Prop} {needs : Key → Key → Prop}
  {spent : ResolveError → Prop} {deep : Prop} {jobs : List (List Demand)} {m : Machine}

def History.Deep (h : History) : Prop :=
  ∃ c mode key offer n,
    (⟨c, .enter mode key offer, .error (.depthExceeded n)⟩ : Performed) ∈ h

/-- Calls were refused for nothing but their depth, and no call failed but for that. -/
structure History.Smooth (spent : ResolveError → Prop) (deep : Prop) (h : History) : Prop where
  refused : ∀ c mode key offer e,
    (⟨c, .enter mode key offer, .error e⟩ : Performed) ∈ h → ∃ n, e = .depthExceeded n
  returned : ∀ c mode key before r,
    (⟨c, .leave mode key before r, ()⟩ : Performed) ∈ h → Failing spent deep r

theorem smooth_start : History.Smooth spent deep [] := ⟨by simp, by simp⟩

/-- Calls follow the relation, and what came of them is as it should be. -/
def Follows (types : Key → Prop) (needs : Key → Key → Prop) (spent : ResolveError → Prop)
    (deep : Prop) (_ : List Key) (calls : ClientId → List Call) (_ : Store) (h : History) : Prop :=
  (∀ c, Linked types needs ((calls c).map Call.key)) ∧ h.Smooth spent deep

theorem Layered.follows_kept (layered : Layered setting types needs spent) :
    Kept (layeredTerms setting types needs spent deep) (Follows types needs spent deep) := by
  intro keys calls s c a r calls' keys' s' h taken old
  obtain ⟨linked, smooth⟩ := old
  have move := taken.move
  have chain := linked c
  refine ⟨fun c' => ?_, ?_, ?_⟩
  · by_cases hc : c' = c
    · subst hc
      rw [Function.update_self]
      generalize calls c' = cs at move chain
      cases move with
      | own => exact chain
      | enter _ _ asked => exact ⟨asked, chain⟩
      | leave => exact chain.2
      | refuse | aside => exact chain
    · rw [Function.update_of_ne hc]
      exact linked c'
  · intro c' mode key offer e hp
    cases hp with
    | tail _ hp => exact smooth.refused c' mode key offer e hp
    | head =>
        generalize calls c = cs at move chain
        cases move with
        | @own call _ _ _ _ n =>
            obtain ⟨_, _, _, stage⟩ := call
            cases n
        | refuse _ hr asked => exact layered.refusal chain asked hr
        | aside _ ha => cases ha
  · intro c' mode key before result hp
    cases hp with
    | tail _ hp => exact smooth.returned c' mode key before result hp
    | head =>
        generalize calls c = cs at move
        cases move with
        | @own call _ _ _ _ n =>
            obtain ⟨_, _, _, stage⟩ := call
            cases n
        | leave _ given => exact given
        | aside _ ha => cases ha

theorem Machine.Reaches.layered (reach : (Machine.start setting jobs).Reaches m)
    (layered : Layered setting types needs spent)
    (asks : ∀ demands ∈ jobs, ∀ d ∈ demands, d.Asks setting types) :
    ∃ keys calls, m.Conducted (layeredTerms setting types needs spent m.history.Deep) keys calls
        (fun c replies => ∀ demands, jobs[c]? = some demands →
          Served spent m.history.Deep demands replies) ∧
      Follows types needs spent m.history.Deep keys calls m.store m.history := by
  have told : m.history.Told (layeredTerms setting types needs spent m.history.Deep) := by
    intro c mode key offer e hp n he
    subst he
    exact ⟨c, mode, key, offer, n, hp⟩
  refine (Machine.conducted_start fun c demands hd => ?_).reaches rfl reach told ?_
    layered.follows_kept
  · refine (abides_served layered demands (asks demands (List.mem_of_getElem? hd))).mono ?_
    intro calls replies given
    refine ⟨given.1, fun demands' hd' => ?_⟩
    cases hd.symm.trans hd'
    exact given.2
  · exact ⟨fun _ => trivial, smooth_start⟩

/-- What is so wherever clients get that call layered accessors. -/
structure Completes (spent : ResolveError → Prop) (jobs : List (List Demand)) (m : Machine) :
    Prop where
  smooth : m.history.Smooth spent m.history.Deep
  goes_on : (∀ client ∈ m.clients, client.Finished) ∨ ∃ c m', m.step c = some m'
  served : ∀ (c : ClientId) demands trail replies, jobs[c]? = some demands →
    m.clients[c]? = some ⟨trail, .done replies⟩ → Served spent m.history.Deep demands replies
  ends : ∃ m', m.Reaches m' ∧ ∀ client ∈ m'.clients, client.Finished

theorem Machine.Reaches.goes_on (reach : (Machine.start setting jobs).Reaches m)
    (layered : Layered setting types needs spent)
    (asks : ∀ demands ∈ jobs, ∀ d ∈ demands, d.Asks setting types) :
    (∀ client ∈ m.clients, client.Finished) ∨ ∃ c m', m.step c = some m' := by
  obtain ⟨keys, calls, conducted, linked, -⟩ := reach.layered layered asks
  exact conducted.goes_on linked layered.acyclic

/-- Any number of clients that call layered accessors complete, in whatever order they take their
steps. No call is refused for a circle; a call that fails does so because some call has been refused
for its depth; and unless all have finished, some client can go on. -/
theorem layered_clients_complete (layered : Layered setting types needs spent)
    (asks : ∀ demands ∈ jobs, ∀ d ∈ demands, d.Asks setting types)
    (reach : (Machine.start setting jobs).Reaches m) : Completes spent jobs m := by
  obtain ⟨keys, calls, conducted, -, smooth⟩ := reach.layered layered asks
  refine ⟨smooth, reach.goes_on layered asks, ?_, ?_⟩
  · intro c demands trail replies hd hc
    exact (conducted.abides c _ hc).2.2 demands hd
  · clear conducted smooth
    induction m using Machine.wellFounded_step.induction with
    | _ m ih =>
        cases reach.goes_on layered asks with
        | inl finished => exact ⟨m, .start, finished⟩
        | inr goes =>
            obtain ⟨c, m', hs⟩ := goes
            obtain ⟨last, later, finished⟩ := ih m' ⟨c, hs⟩ (.step reach hs)
            exact ⟨last, (Machine.Reaches.step .start hs).trans later, finished⟩

end History

def poolKey : Key := ⟨"app::Pool", "Pool"⟩

def storeKey : Key := ⟨"app::Store", "Store"⟩

def siteKey : Key := ⟨"app::Site", "Site"⟩

def siteSetting : Setting where
  observers := 0
  accessor key :=
    if key = siteKey then
      ⟨.lazySingletonAsync, fun
        | .sync, _ => .finish (.ok ⟨none, []⟩)
        | .async, _ => .await (.resolveAsync storeKey) fun reply => .finish reply.outcome⟩
    else if key = storeKey then
      ⟨.singletonAsync, fun _ _ => .call (.resolve poolKey) fun reply => .finish reply.outcome⟩
    else ⟨.lazySingleton, fun _ _ => .finish (.ok ⟨none, []⟩)⟩

def siteTypes (key : Key) : Prop := key ∈ [poolKey, storeKey, siteKey]

def siteNeeds (key key' : Key) : Prop :=
  (key, key') ∈ [(storeKey, poolKey), (siteKey, storeKey)]

def siteJobs : List (List Demand) :=
  [[⟨.inr (.resolveAsync siteKey), .task⟩],
    [⟨.inr (.resolveAsync storeKey), .multi⟩, ⟨.inl (.resolve poolKey), .plain⟩]]

theorem siteSetting_layered :
    Layered siteSetting siteTypes siteNeeds fun e => ∃ n, e = .depthExceeded n where
  names := by
    intro k k' hk hk' same
    simp only [siteTypes, List.mem_cons, List.not_mem_nil, or_false] at hk hk'
    obtain rfl | rfl | rfl := hk <;> obtain rfl | rfl | rfl := hk' <;> revert same <;> decide
  closed := by
    intro k k' _ needs
    simp only [siteNeeds, List.mem_cons, List.not_mem_nil, or_false, Prod.mk.injEq] at needs
    obtain ⟨-, rfl⟩ | ⟨-, rfl⟩ := needs <;> simp [siteTypes]
  acyclic := by
    have down (k k' : Key) (needs : siteNeeds k k') :
        [poolKey, storeKey, siteKey].idxOf k' < [poolKey, storeKey, siteKey].idxOf k := by
      simp only [siteNeeds, List.mem_cons, List.not_mem_nil, or_false, Prod.mk.injEq] at needs
      obtain ⟨rfl, rfl⟩ | ⟨rfl, rfl⟩ := needs <;> decide
    have below (k k' : Key) (way : Relation.TransGen siteNeeds k k') :
        [poolKey, storeKey, siteKey].idxOf k' < [poolKey, storeKey, siteKey].idxOf k := by
      induction way with
      | single needs => exact down _ _ needs
      | tail _ needs ih => exact Nat.lt_trans (down _ _ needs) ih
    exact fun k way => Nat.lt_irrefl _ (below k k way)
  producers := by
    intro k hk run
    simp only [siteTypes, List.mem_cons, List.not_mem_nil, or_false] at hk
    obtain rfl | rfl | rfl := hk
    · exact trivial
    · exact ⟨⟨poolKey, by simp [siteNeeds], .resolve rfl⟩, fun _ => trivial, fun _ he => ⟨rfl, he⟩⟩
    · exact ⟨⟨storeKey, by simp [siteNeeds], .resolveAsync rfl⟩, fun _ => trivial,
        fun _ he => ⟨rfl, he⟩⟩
  depth n := ⟨n, rfl⟩

/-- The site is being made and holds the gate of the store, which the other client waits for. -/
theorem site_and_store_complete :
    ∃ m, (Machine.start siteSetting siteJobs).Reaches m ∧ (m.step 1).isNone ∧
      Completes (fun e => ∃ n, e = .depthExceeded n) siteJobs m := by
  obtain ⟨m, reach, waits⟩ := Machine.exists_of_follow (m := Machine.start siteSetting siteJobs)
    (List.replicate 14 0 ++ [1, 1, 1]) (P := fun m => (m.step 1).isNone) (by decide +kernel)
  refine ⟨m, reach, waits, layered_clients_complete siteSetting_layered ?_ reach⟩
  intro demands hd d hm
  simp only [siteJobs, List.mem_cons, List.not_mem_nil, or_false] at hd
  obtain rfl | rfl := hd
  · cases List.mem_singleton.1 hm
    exact ⟨by decide, siteKey, by simp [siteTypes], .resolveAsync rfl⟩
  · simp only [List.mem_cons, List.not_mem_nil, or_false] at hm
    obtain rfl | rfl := hm
    · exact ⟨by decide, storeKey, by simp [siteTypes], .resolveAsync rfl⟩
    · exact ⟨by decide, poolKey, by simp [siteTypes], .resolve rfl⟩

end Wiring.Registry
