import Wiring.Proofs.Registry.Alone
import Wiring.Proofs.Registry.Record

/-!
A client that is left alone never waits for itself. Whatever producers ask for, a call for a key
that is being resolved is refused by the trail before it comes to a gate or a cell, no more than
`maxDepth` resolutions are ever under way, and every demand is answered.
-/
namespace Wiring.Registry

def Shown (_ : List Key) (calls : ClientId → List Call) (_ : Store) (h : History) : Prop :=
  ∀ c, h.active c = (calls c).map fun call => (call.key, call.offer)

theorem shown_kept (terms : Terms) : Kept terms Shown := fun taken shown => taken.active shown

/-- Once no call is under way, any client may go on alone. -/
theorem Tenure.lone {observers : Nat} {keys : List Key} {calls : ClientId → List Call} {s : Store}
    (t : Tenure (.plain observers none) keys calls s) (idle : ∀ c, calls c = []) (me : ClientId) :
    Tenure (.plain observers (some me)) keys (Registry.lone me []) s := by
  have none_left : calls = Registry.lone me [] := by
    funext c
    rw [idle]
    by_cases hc : c = me
    · rw [hc, lone_self]
    · rw [Registry.lone, Function.update_of_ne hc]
  subst none_left
  refine ⟨t.length, t.index, t.nested, t.slot, ?_, t.known, t.vacant, t.gate, t.cell, ?_,
    t.cached, ?_⟩
  · intro id e he
    obtain ⟨key, hk, suits⟩ := t.entry id e he
    exact ⟨key, hk, suits.key, suits.slot, suits.sound, trivial⟩
  · intro id inst full
    obtain ⟨e, he, lazy, hi, -⟩ := t.full id inst full
    exact ⟨e, he, lazy, hi, trivial⟩
  · intro _ _ c _
    exact idle c

section Refused

variable {setting : Setting} {runner : Runner} {runtime : Runtime} {key : Key} {mode : Mode}
  {me : ClientId} {w : Situation} {κ : Resolved → Program (List Reply)}

theorem leads_refused {offer : Option ProducerId} {body : Program Resolved} {error : ResolveError}
    (refused : w.trail.refusal? key.name = some error) :
    ((Program.guarded mode key offer body).bind κ).Leads me w (κ (.error error))
      ⟨w.trail, w.store, ⟨me, .enter mode key offer, .error error⟩ :: w.history⟩ := by
  have step : Program.advance me (.enter mode key offer) w =
      some (.error error,
        ⟨w.trail, w.store, ⟨me, .enter mode key offer, .error error⟩ :: w.history⟩) := by
    simp only [Program.advance, Action.perform, refused]
  exact Program.Leads.once step

/-- A call whose name is on the trail comes back with an error, and nothing else has happened. -/
theorem EntryPoint.refused (x : EntryPoint mode) {error : ResolveError}
    (refused : w.trail.refusal? key.name = some error) :
    ∃ error h, ((x.program setting runner runtime key).bind κ).Leads me w (κ (.error error))
        ⟨w.trail, w.store, h⟩ ∧
      (h = w.history ∨ h = ⟨me, .enter mode key x.offer, .error error⟩ :: w.history) := by
  cases x with
  | read => cases mode <;> exact ⟨error, _, leads_refused refused, .inr rfl⟩
  | register policy producer =>
      cases mode with
      | sync =>
          simp only [EntryPoint.program, Program.getOrRegister]
          cases policy.isAsync with
          | true => exact ⟨_, _, .start, .inl rfl⟩
          | false => exact ⟨error, _, leads_refused refused, .inr rfl⟩
      | async =>
          simp only [EntryPoint.program, Program.getOrRegisterAsync]
          cases policy.isAsync with
          | true => exact ⟨error, _, leads_refused refused, .inr rfl⟩
          | false => exact ⟨_, _, .start, .inl rfl⟩

end Refused

/-- What is so wherever a client gets that works alone. -/
structure Unhindered (setting : Setting) (me : ClientId) (p : Program (List Reply))
    (w : Situation) : Prop where
  depth : (w.history.active me).length ≤ maxDepth
  apart : (w.history.active me).Pairwise fun x y => x.1.name ≠ y.1.name
  goes_on : ∀ a next, p = .step a next → Program.advance me a w ≠ none
  /-- A call for a key that is being resolved comes back with an error, and the only step that it
  may have taken is the one in which the trail refused it. -/
  refuses : ∀ mode, ∀ x : EntryPoint mode, ∀ key κ runner runtime,
    p = (x.program setting runner runtime key).bind κ →
      key ∈ (w.history.active me).map Prod.fst →
        ∃ error h, p.Leads me w (κ (.error error)) ⟨w.trail, w.store, h⟩ ∧
          (h = w.history ∨ h = ⟨me, .enter mode key x.offer, .error error⟩ :: w.history)

theorem Situated.unhindered {setting : Setting} {me : ClientId} {calls : List Call}
    {w : Situation} {p : Program (List Reply)} {post : List Call → List Reply → Prop}
    (at_ : Situated (.plain setting.observers (some me)) Shown me calls w)
    (abides : p.Abides (.plain setting.observers (some me)) calls p post) :
    Unhindered setting me p w := by
  obtain ⟨keys, tenure, shown⟩ := at_.held
  have active : w.history.active me = calls.map fun call => (call.key, call.offer) := by
    rw [shown me, lone_self]
  have nested : Nested calls := by
    have h := tenure.nested me
    rwa [lone_self] at h
  refine ⟨?_, ?_, ?_, ?_⟩
  · rw [active, List.length_map]
    exact nested.length_le
  · rw [active]
    exact List.pairwise_map.2 nested.pairwise
  · intro a next he stuck
    subst he
    obtain ⟨ho, -⟩ := abides
    obtain ⟨r, w', calls', hs, -⟩ := at_.advance rfl (shown_kept _) ho fun _ => trivial
    cases stuck.symm.trans hs
  · intro mode x key κ runner runtime he resolving
    subst he
    rw [active, List.map_map] at resolving
    obtain ⟨call, hm, rfl⟩ := List.mem_map.1 resolving
    have named : call.key.name ∈ w.trail.names :=
      at_.trail ▸ mem_names_trailOf.2 ⟨call, hm, rfl⟩
    exact x.refused (Trail.refusal?_of_mem named)

/-- A client that is left alone gets an answer to every demand, whatever the producers of any
number of keys ask for, and is nowhere hindered on the way. How scripts are carried out that nest
deeper than `maxDepth` makes no difference. -/
theorem lone_client_returns {setting : Setting} {jobs : List (List Demand)} {m : Machine}
    (reach : (Machine.start setting jobs).Reaches m) (idle : ∀ c, m.history.active c = [])
    (me : ClientId) (demands : List Demand) :
    (∃ replies w, inTurn setting me demands m.store m.history = some (replies, w) ∧
      replies.length = demands.length ∧
        ∀ bottom, (workOver setting (runScriptOver setting bottom maxDepth) demands).run me
          ⟨.empty, m.store, m.history⟩ = some (replies, w)) ∧
      ∀ p w, (work setting demands).Leads me ⟨.empty, m.store, m.history⟩ p w →
        Unhindered setting me p w := by
  obtain ⟨keys, calls, conducted, shown⟩ :=
    reach.conducted (J := Shown) (fun _ => rfl) (shown_kept _)
  have rested : ∀ c, calls c = [] := by
    intro c
    have h := shown c
    rw [idle, eq_comm, List.map_eq_nil_iff] at h
    exact h
  have at_ : Situated (.plain setting.observers (some me)) Shown me []
      ⟨.empty, m.store, m.history⟩ := by
    refine ⟨rfl, keys, conducted.tenure.lone rested me, fun c => ?_⟩
    rw [idle]
    by_cases hc : c = me
    · rw [hc, lone_self]; rfl
    · rw [lone, Function.update_of_ne hc]; rfl
  have abides (bottom : Runner) : (work setting demands).Abides (.plain setting.observers (some me))
      [] (workOver setting (runScriptOver setting bottom maxDepth) demands) fun calls replies =>
        calls = [] ∧ replies.length = demands.length := abides_work bottom demands
  refine ⟨?_, fun p w leads => ?_⟩
  · obtain ⟨replies, w, _, hp, -, ⟨-, hl⟩, -⟩ :=
      at_.run rfl (shown_kept _) (abides (runScript setting 0))
    refine ⟨replies, w, hp, hl, fun bottom => ?_⟩
    obtain ⟨replies', w', _, hp', hq, -, -⟩ := at_.run rfl (shown_kept _) (abides bottom)
    cases hp.symm.trans hp'
    exact hq
  · obtain ⟨calls', left, at'⟩ :=
      at_.leads rfl (shown_kept _) (abides (runScript setting 0)).left leads
    exact at'.unhindered left

def clockKey : Key := ⟨"app::Clock", "Clock"⟩

def clockSetting : Setting :=
  ⟨1, fun _ => ⟨.singleton, fun _ _ => .call (.resolve clockKey) fun
    | .resolved (.error error) => .finish (.error error)
    | _ => .finish (.ok ⟨none, []⟩)⟩⟩

def clockJob : List Demand :=
  [⟨.inl (.resolve clockKey), .plain⟩, ⟨.inl (.resolve clockKey), .current⟩]

theorem clock_that_needs_itself_returns :
    (∀ c, (Machine.start clockSetting []).history.active c = []) ∧
      (∃ replies w, inTurn clockSetting 0 clockJob .empty [] = some (replies, w) ∧
        replies.length = clockJob.length ∧
          ∀ bottom,
            (workOver clockSetting (runScriptOver clockSetting bottom maxDepth) clockJob).run 0
              ⟨.empty, .empty, []⟩ = some (replies, w)) ∧
        ∀ p w, (work clockSetting clockJob).Leads 0 ⟨.empty, .empty, []⟩ p w →
          Unhindered clockSetting 0 p w :=
  ⟨fun _ => rfl, lone_client_returns (m := Machine.start clockSetting []) .start (fun _ => rfl) 0
    clockJob⟩

end Wiring.Registry
