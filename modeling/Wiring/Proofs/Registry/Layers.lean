import Wiring.Proofs.Registry.Requesting
import Mathlib.Logic.Relation

/-!
Accessors that need one another in one direction only. Their producers are sequences of calls of the
accessors that they need, so the calls under way follow the relation, no name comes twice among
them, and the one thing that a call can be refused for is its depth.
-/
namespace Wiring.Registry

inductive Request.Calls (setting : Setting) (key : Key) : {m : Mode} → Request m → Prop
  | resolve (h : (setting.accessor key).policy.mode = .sync) : Calls setting key (.resolve key)
  | resolveAsync (h : (setting.accessor key).policy.mode = .async) :
      Calls setting key (.resolveAsync key)

/-- A sequence of calls of accessors whose keys `needs` is true of. It succeeds if they all do;
where one of them has `failed`, it may come to any end, errors that `spent` is true of included. -/
def Script.Leans (setting : Setting) (needs : Key → Prop) (spent : ResolveError → Prop) :
    {m : Mode} → Script m → (failed : Bool) → Prop
  | _, .finish (.ok _), _ => True
  | _, .finish (.error e), failed => failed = true ∧ spent e
  | _, .note _ next, failed => next.Leans setting needs spent failed
  | _, .call request next, failed =>
      (∃ key, needs key ∧ request.Calls setting key) ∧
        (∀ inst, (next (.resolved (.ok inst))).Leans setting needs spent failed) ∧
          ∀ e, spent e → (next (.resolved (.error e))).Leans setting needs spent true
  | _, .await request next, failed =>
      (∃ key, needs key ∧ request.Calls setting key) ∧
        (∀ inst, (next (.resolved (.ok inst))).Leans setting needs spent failed) ∧
          ∀ e, spent e → (next (.resolved (.error e))).Leans setting needs spent true

/-- Accessors for `types`, each of which calls those that it needs, and none of which needs itself
in the end. What producers make of a call that was refused for its depth is among `spent`. -/
structure Layered (setting : Setting) (types : Key → Prop) (needs : Key → Key → Prop)
    (spent : ResolveError → Prop) : Prop where
  names : ∀ k k', types k → types k' → k.name = k'.name → k = k'
  closed : ∀ k k', types k → needs k k' → types k'
  acyclic : ∀ k, ¬Relation.TransGen needs k k
  producers : ∀ k, types k → ∀ run,
    ((setting.accessor k).script (setting.accessor k).policy.mode run).Leans setting (needs k)
      spent false
  depth : ∀ n, spent (.depthExceeded n)

section Links

variable {types : Key → Prop} {needs : Key → Key → Prop} {keys : List Key} {key : Key}

/-- A call for `key` that may be made while `keys` are being resolved, the innermost first. -/
def Asked (types : Key → Prop) (needs : Key → Key → Prop) (keys : List Key) (key : Key) : Prop :=
  types key ∧ ∀ outer, keys.head? = some outer → needs outer key

/-- Keys that are being resolved within each other, each of them needed by the one around it. -/
def Linked (types : Key → Prop) (needs : Key → Key → Prop) : List Key → Prop
  | [] => True
  | key :: keys => Asked types needs keys key ∧ Linked types needs keys

theorem Linked.typed (linked : Linked types needs keys) : ∀ k ∈ keys, types k := by
  induction keys with
  | nil => simp
  | cons key keys ih => exact List.forall_mem_cons.2 ⟨linked.1.1, ih linked.2⟩

/-- What is asked for is needed in the end by all that is being resolved. -/
theorem Asked.needed (asked : Asked types needs keys key) (linked : Linked types needs keys) :
    ∀ k ∈ keys, Relation.TransGen needs k key := by
  induction keys generalizing key with
  | nil => simp
  | cons outer keys ih =>
      have link := asked.2 outer rfl
      exact List.forall_mem_cons.2
        ⟨.single link, fun k hk => (ih linked.1 linked.2 k hk).tail link⟩

end Links

section Conduct

variable {setting : Setting} {types : Key → Prop} {needs : Key → Key → Prop}
  {spent : ResolveError → Prop} {deep : Prop} {runner : Runner} {runtime : Runtime} {key : Key}
  {calls : List Call} {m : Mode}

def Setting.producer (setting : Setting) (key : Key) (m : Mode) : Producer m :=
  ⟨.accessor key, (setting.accessor key).script m⟩

/-- A call fails where some call has been refused for its depth, which `deep` says, and then with an
error that is spent. -/
def Failing (spent : ResolveError → Prop) (deep : Prop) {α : Type} (r : Except ResolveError α) :
    Prop :=
  ∀ e, r = .error e → spent e ∧ deep

def layeredTerms (setting : Setting) (types : Key → Prop) (needs : Key → Key → Prop)
    (spent : ResolveError → Prop) (deep : Prop) : Terms where
  observers := setting.observers
  alone := none
  driven := False
  entry e := e.policy = (setting.accessor e.key).policy ∧
    ∀ p, e.resolution.maker? = some p → p = ⟨_, setting.producer e.key e.policy.mode⟩
  inst _ := True
  asks keys key := Asked types needs keys key
  gives _ r := Failing spent deep r
  refuses e := ∀ n, e = .depthExceeded n → deep

/-- The calls under way follow the relation, so none of them has the name that is asked for. -/
theorem Layered.refusal (layered : Layered setting types needs spent)
    (linked : Linked types needs (calls.map Call.key))
    (asked : Asked types needs (calls.map Call.key) key) {e : ResolveError}
    (refused : (trailOf calls).refusal? key.name = some e) : ∃ n, e = .depthExceeded n := by
  unfold Trail.refusal? at refused
  split at refused
  · next named =>
      obtain ⟨c, hc, same⟩ := mem_names_trailOf.1 named
      have hk : c.key ∈ calls.map Call.key := List.mem_map_of_mem hc
      have cycle := asked.needed linked c.key hk
      rw [layered.names c.key key (linked.typed _ hk) asked.1 same] at cycle
      exact absurd cycle (layered.acyclic key)
  · split at refused
    · cases refused
      exact ⟨_, rfl⟩
    · cases refused

def Runner.Serves (setting : Setting) (types : Key → Prop) (needs : Key → Key → Prop)
    (spent : ResolveError → Prop) (deep : Prop) (runner : Runner) (depth : Nat) : Prop :=
  ∀ runtime, runtime ≠ .currentThread → ∀ run call calls,
    Linked types needs ((call :: calls).map Call.key) → Nested (call :: calls) →
      Callable (call :: calls) → depth ≤ calls.length + 1 →
        let p := setting.producer call.key (setting.accessor call.key).policy.mode
        (runner runtime (p.script run)).Abides (layeredTerms setting types needs spent deep)
          (call :: calls) (runner runtime (p.script run)) fun calls' o =>
            calls' = call :: calls ∧ Failing spent deep o

/-- The call of an accessor comes back with an instance, or it fails as its producer does. -/
theorem abides_accessor (layered : Layered setting types needs spent)
    (serves : runner.Serves setting types needs spent deep (calls.length + 1))
    (hm : (setting.accessor key).policy.mode = m) (crowd : runtime ≠ .currentThread)
    (linked : Linked types needs (calls.map Call.key))
    (asked : Asked types needs (calls.map Call.key) key) (nested : Nested calls)
    (callable : Callable calls) :
    ((EntryPoint.register (setting.accessor key).policy (setting.producer key m)).program setting
        runner runtime key).Abides (layeredTerms setting types needs spent deep) calls
      ((EntryPoint.register (setting.accessor key).policy (setting.producer key m)).program setting
        runner runtime key) fun calls' r => calls' = calls ∧ Failing spent deep r := by
  have producer (hr : (trailOf calls).refusal? key.name = none) :
      (setting.producer key m).Abides (layeredTerms setting types needs spent deep) runner runner
        key m (some (setting.producer key m).id) calls (Failing spent deep) := by
    subst hm
    intro runtime driven run s hs
    exact serves runtime driven run ⟨key, _, _, s⟩ calls ⟨asked, linked⟩ ⟨callable, hr, nested⟩ hs
      (Nat.le_refl _)
  refine Program.abides_entryPoint (O := Failing spent deep) (Q := Failing spent deep) rfl _
    callable crowd asked (fun _ h => h) ?_ ?_ ?_ ?_ ?_
  · intro e hr told e' he'
    cases he'
    obtain ⟨n, rfl⟩ := layered.refusal linked asked hr
    exact ⟨layered.depth n, told n rfl⟩
  · exact fun mismatched => absurd hm mismatched
  · exact fun absent => by cases absent
  · intro hr
    refine ⟨?_, ?_⟩
    · intro e suits p hp
      obtain ⟨rfl, -, -, policy, maker⟩ := suits
      rw [maker p hp, policy, hm]
      exact producer hr
    · intro e suits
      obtain ⟨rfl, -, -, policy, maker⟩ := suits
      refine ⟨?_, ?_, ?_, ?_, ?_⟩
      · exact fun _ _ _ h => by cases h
      · exact fun _ _ _ _ _ h => by cases h
      · intro p run o r _ failing made e' he'
        obtain ⟨serial, hr⟩ := made
        cases o with
        | ok payload => cases hr.symm.trans he'
        | error error => cases hr.symm.trans he'; exact failing _ rfl
      · exact fun _ _ _ _ _ _ _ => trivial
      · intro plain awaited
        rw [policy, hm, plain] at awaited
        cases awaited
  · intro hr policy producer' hx
    cases hx
    refine ⟨producer hr, ?_, ?_, fun _ h => h.elim⟩
    · intro e registers
      obtain ⟨rfl, policy, -, maker, -⟩ := registers
      refine ⟨policy, fun p hp => ?_⟩
      rw [maker p hp, policy, hm]
    · intro e failing e' he'
      cases he'
      exact failing e rfl

def Reply.Failing (spent : ResolveError → Prop) (deep : Prop) (reply : Reply) : Prop :=
  ∃ r, reply = .resolved r ∧ Registry.Failing spent deep r

theorem abides_calls (layered : Layered setting types needs spent)
    (serves : runner.Serves setting types needs spent deep (calls.length + 1))
    {request : Request m} (hc : request.Calls setting key) (crowd : runtime ≠ .currentThread)
    (linked : Linked types needs (calls.map Call.key))
    (asked : Asked types needs (calls.map Call.key) key) (nested : Nested calls)
    (callable : Callable calls) :
    (request.program setting runner runtime).Abides (layeredTerms setting types needs spent deep)
      calls (request.program setting runner runtime) fun calls' reply =>
        calls' = calls ∧ reply.Failing spent deep := by
  cases hc with
  | resolve hm | resolveAsync hm =>
      apply Program.abides_bind
      apply (abides_accessor layered serves hm crowd linked asked nested callable).mono
      intro _ r given
      obtain ⟨rfl, failing⟩ := given
      exact Program.abides_pure ⟨rfl, r, rfl, failing⟩

/-- What goes on after the call of an accessor, well or wrong, abides if both ways do. -/
theorem abides_answered {terms : Terms} {p : Program Reply} {κ : Reply → Program Outcome}
    {post : List Call → Outcome → Prop}
    (hp : p.Abides terms calls p fun calls' reply => calls' = calls ∧ reply.Failing spent deep)
    (ok : ∀ inst, (κ (.resolved (.ok inst))).Abides terms calls (κ (.resolved (.ok inst))) post)
    (wrong : ∀ e, spent e → deep →
      (κ (.resolved (.error e))).Abides terms calls (κ (.resolved (.error e))) post) :
    (p >>= κ).Abides terms calls (p >>= κ) post := by
  apply Program.abides_bind
  apply hp.mono
  intro _ reply given
  obtain ⟨rfl, r, rfl, failing⟩ := given
  cases r with
  | ok inst => exact ok inst
  | error e => exact wrong e (failing e rfl).1 (failing e rfl).2

/-- Scripts follow the calls that they lean on. -/
theorem abides_leans {terms : Terms} {needs : Key → Prop} (callable : Callable calls)
    {call : Request .sync → Program Reply} {await : Request .async → Program Reply}
    (hcall : ∀ key, needs key → ∀ request : Request .sync, request.Calls setting key →
      (call request).Abides terms calls (call request) fun calls' reply =>
        calls' = calls ∧ reply.Failing spent deep)
    (hawait : ∀ key, needs key → ∀ request : Request .async, request.Calls setting key →
      (await request).Abides terms calls (await request) fun calls' reply =>
        calls' = calls ∧ reply.Failing spent deep)
    {m : Mode} : (script : Script m) → (failed : Bool) → (failed = true → deep) →
    script.Leans setting needs spent failed →
      (script.program call await).Abides terms calls (script.program call await) fun calls' o =>
        calls' = calls ∧ Failing spent deep o
  | .finish (.ok _), _, _, _ => Program.abides_pure ⟨rfl, fun _ h => by cases h⟩
  | .finish (.error e), failed, hf, leans => by
      refine Program.abides_pure ⟨rfl, fun e' he => ?_⟩
      cases he
      exact ⟨leans.2, hf leans.1⟩
  | .note _ next, failed, hf, leans => by
      apply Program.abides_bind
      apply (abides_aside (.note _) trivial callable).mono
      intro calls' _ he
      subst calls'
      exact abides_leans callable hcall hawait next failed hf leans
  | .call request next, failed, hf, leans => by
      obtain ⟨⟨key, hk, hc⟩, ok, wrong⟩ := leans
      refine abides_answered (hcall key hk request hc) ?_ ?_
      · exact fun inst => abides_leans callable hcall hawait _ failed hf (ok inst)
      · exact fun e he hd => abides_leans callable hcall hawait _ true (fun _ => hd) (wrong e he)
  | .await request next, failed, hf, leans => by
      obtain ⟨⟨key, hk, hc⟩, ok, wrong⟩ := leans
      refine abides_answered (hawait key hk request hc) ?_ ?_
      · exact fun inst => abides_leans callable hcall hawait _ failed hf (ok inst)
      · exact fun e he hd => abides_leans callable hcall hawait _ true (fun _ => hd) (wrong e he)

/-- The bottom of `runScript` is out of reach, since the trail refuses the calls that would need
it. -/
theorem runScript_serves (layered : Layered setting types needs spent) (deep : Prop)
    (level : Nat) :
    Runner.Serves setting types needs spent deep (runScript setting level)
      (maxDepth + 1 - level) := by
  induction level with
  | zero =>
      intro runtime _ run call calls _ nested _ far
      have := nested.length_le
      simp only [List.length_cons] at this
      omega
  | succ level ih =>
      intro runtime crowd run call calls linked nested callable far
      have deeper : Runner.Serves setting types needs spent deep (runScript setting level)
          ((call :: calls).length + 1) :=
        fun runtime crowd run call' calls' linked nested callable far' =>
          ih runtime crowd run call' calls' linked nested callable
            (by simp only [List.length_cons] at far'; omega)
      have asked (k : Key) (hk : needs call.key k) :
          Asked types needs ((call :: calls).map Call.key) k :=
        ⟨layered.closed _ k linked.1.1 hk, fun outer ho => by cases ho; exact hk⟩
      exact abides_leans callable
        (fun k hk _ hc => abides_calls layered deeper hc crowd linked (asked k hk) nested callable)
        (fun k hk _ hc => abides_calls layered deeper hc crowd linked (asked k hk) nested callable)
        _ false nofun (layered.producers call.key linked.1.1 run)

/-- A demand for one of the types, made where plain code may wait. -/
def Demand.Asks (setting : Setting) (types : Key → Prop) (d : Demand) : Prop :=
  d.context.runtime ≠ .currentThread ∧ ∃ key, types key ∧
    match d.request with
    | .inl request => request.Calls setting key
    | .inr request => request.Calls setting key

/-- A client has a reply to each of its demands, and none of them failed but for its depth. -/
def Served (spent : ResolveError → Prop) (deep : Prop) (demands : List Demand)
    (replies : List Reply) : Prop :=
  replies.length = demands.length ∧ ∀ reply ∈ replies, reply.Failing spent deep

theorem abides_served (layered : Layered setting types needs spent) (demands : List Demand)
    (asks : ∀ d ∈ demands, d.Asks setting types) :
    (work setting demands).Abides (layeredTerms setting types needs spent deep) []
      (work setting demands) fun calls replies =>
        calls = [] ∧ Served spent deep demands replies := by
  unfold work
  induction demands with
  | nil => exact Program.abides_pure ⟨rfl, rfl, by simp⟩
  | cons d demands ih =>
      obtain ⟨asks, others⟩ := List.forall_mem_cons.1 asks
      have first : (d.program setting).Abides (layeredTerms setting types needs spent deep) []
          (d.program setting) fun calls reply => calls = [] ∧ reply.Failing spent deep := by
        obtain ⟨request, context⟩ := d
        obtain ⟨crowd, key, hk, hc⟩ := asks
        have serves : Runner.Serves setting types needs spent deep (runScript setting maxDepth)
            (([] : List Call).length + 1) := runScript_serves layered deep maxDepth
        cases request with
        | inl request | inr request =>
            exact abides_calls layered serves hc crowd trivial ⟨hk, fun _ h => by cases h⟩ trivial
              trivial
      simp only [List.mapM_cons]
      apply Program.abides_bind
      apply first.mono
      intro _ reply given
      obtain ⟨rfl, failing⟩ := given
      apply Program.abides_bind
      apply (ih others).mono
      intro _ replies given
      obtain ⟨rfl, length, failings⟩ := given
      exact Program.abides_pure ⟨rfl, by simp [length], List.forall_mem_cons.2 ⟨failing, failings⟩⟩

end Conduct

end Wiring.Registry
