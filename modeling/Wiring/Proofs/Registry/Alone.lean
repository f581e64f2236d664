import Wiring.Proofs.Registry.Reach

/-!
A client that works alone. Where nobody else has a call under way, no step has to wait, so every
program that abides by the conduct of clients comes to its end, and what steps keep is true on the
way and at the end.
-/
namespace Wiring.Registry

/-- What is reached by the steps of `me` with nobody else at work. -/
inductive Program.Leads (me : ClientId) {α : Type} (p₀ : Program α) (w₀ : Situation) :
    Program α → Situation → Prop
  | start : Leads me p₀ w₀ p₀ w₀
  | step {a : Action} {next : a.Response → Program α} {w w' : Situation} {r : a.Response}
      (h : Leads me p₀ w₀ (.step a next) w) (hs : Program.advance me a w = some (r, w')) :
      Leads me p₀ w₀ (next r) w'

theorem Program.Leads.once {me : ClientId} {α : Type} {a : Action}
    {next : a.Response → Program α} {w w' : Situation} {r : a.Response}
    (hs : Program.advance me a w = some (r, w')) : (Program.step a next).Leads me w (next r) w' :=
  .step .start hs

def lone (me : ClientId) (calls : List Call) : ClientId → List Call :=
  Function.update (fun _ => []) me calls

/-- Client `me` alone has calls under way, and `J` is true of where it stands. -/
structure Situated (terms : Terms)
    (J : List Key → (ClientId → List Call) → Store → History → Prop) (me : ClientId)
    (calls : List Call) (w : Situation) : Prop where
  trail : w.trail = trailOf calls
  held : ∃ keys, Tenure terms keys (lone me calls) w.store ∧
    J keys (lone me calls) w.store w.history

section Alone

variable {terms : Terms} {J : List Key → (ClientId → List Call) → Store → History → Prop}
  {me : ClientId} {calls : List Call} {w : Situation} {α : Type} {p q : Program α}
  {post : List Call → α → Prop}

@[simp] theorem lone_self : lone me calls me = calls := Function.update_self ..

@[simp] theorem update_lone {calls' : List Call} :
    Function.update (lone me calls) me calls' = lone me calls' := Function.update_idem ..

theorem Situated.advance (at_ : Situated terms J me calls w) (alone : terms.alone = some me)
    (kept : Kept terms J) {a : Action} (ho : Open terms calls a)
    (free : ∀ e, terms.refuses e) :
    ∃ r w' calls', Program.advance me a w = some (r, w') ∧ Move terms calls a r calls' ∧
      Situated terms J me calls' w' := by
  obtain ⟨trail, keys, tenure, hj⟩ := at_
  have ho' : Open terms (lone me calls me) a := by rwa [lone_self]
  have goes := tenure.perform_ne_none alone ho'
  rw [lone_self] at goes
  cases hp : a.perform me (trailOf calls) w.store with
  | none => exact absurd hp goes
  | some result =>
      obtain ⟨r, t, s⟩ := result
      have hp' : a.perform me (trailOf (lone me calls me)) w.store = some (r, t, s) := by
        rwa [lone_self]
      have only : ∀ c, terms.alone = some c → me = c := fun c hc =>
        Option.some.inj (alone.symm.trans hc)
      obtain ⟨keys', calls', grown, hm, rfl, after⟩ :=
        tenure.perform only ho' hp' fun _ _ _ e _ _ => free e
      have taken : Taken terms keys (lone me calls) w.store me a r calls' keys' s :=
        ⟨tenure, hm, hp', grown, after⟩
      have hj' := kept taken hj
      rw [update_lone] at after hj'
      rw [lone_self] at hm
      refine ⟨r, ⟨trailOf calls', s, ⟨me, a, r⟩ :: w.history⟩, calls', ?_, hm, rfl, keys', after,
        hj'⟩
      simp only [Program.advance, trail, hp]

/-- Programs that abide come to their end, and both come to the same one. -/
theorem Situated.run (at_ : Situated terms J me calls w) (alone : terms.alone = some me)
    (kept : Kept terms J) (abides : p.Abides terms calls q post)
    (free : ∀ e, terms.refuses e := by exact fun _ => trivial) :
    ∃ a w' calls', p.run me w = some (a, w') ∧ q.run me w = some (a, w') ∧ post calls' a ∧
      Situated terms J me calls' w' := by
  induction p generalizing calls q w with
  | done a =>
      obtain ⟨rfl, h⟩ := abides
      exact ⟨a, w, calls, rfl, rfl, h, at_⟩
  | step a next ih =>
      obtain ⟨ho, next', rfl, hn⟩ := abides
      obtain ⟨r, w', calls', hs, hm, at'⟩ := at_.advance alone kept ho free
      obtain ⟨b, w'', calls'', hp, hq, h, at''⟩ := ih r at' (hn r calls' hm)
      refine ⟨b, w'', calls'', ?_, ?_, h, at''⟩
      · simp only [Program.run, hs, hp]
      · simp only [Program.run, hs, hq]

theorem Situated.leads (at_ : Situated terms J me calls w) (alone : terms.alone = some me)
    (kept : Kept terms J) (abides : p.Abides terms calls p post) {p' : Program α} {w' : Situation}
    (leads : p.Leads me w p' w') (free : ∀ e, terms.refuses e := by exact fun _ => trivial) :
    ∃ calls', p'.Abides terms calls' p' post ∧ Situated terms J me calls' w' := by
  induction leads with
  | start => exact ⟨calls, abides, at_⟩
  | @step a next w₁ w₂ r _ hs ih =>
      obtain ⟨calls', ⟨ho, next', hq, hn⟩, at'⟩ := ih
      cases hq
      obtain ⟨r', w', calls'', hs', hm, at''⟩ := at'.advance alone kept ho free
      cases hs.symm.trans hs'
      exact ⟨calls'', hn r calls'' hm, at''⟩

end Alone

end Wiring.Registry
