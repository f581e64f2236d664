import Wiring.Proofs.Registry.Conduct

/-!
Programs that abide by the conduct of clients. `Program.Abides` is about two programs at once, which
take the same steps for as long as the responses are such as the registry gives; with one program
in both places it says that every step of the program is open to it.
-/
namespace Wiring.Registry

namespace Program

variable {α β : Type} {terms : Terms}

/-- From the calls given, `p` takes steps that are open alone, `q` takes the same ones, and both
come to the same value, of which `post` is true together with the calls then under way. -/
def Abides (terms : Terms) :
    Program α → List Call → Program α → (List Call → α → Prop) → Prop
  | done a, calls, q, post => q = done a ∧ post calls a
  | step a next, calls, q, post =>
      Open terms calls a ∧ ∃ next', q = step a next' ∧
        ∀ r calls', Move terms calls a r calls' → (next r).Abides terms calls' (next' r) post

theorem abides_pure {a : α} {calls : List Call} {post : List Call → α → Prop} (h : post calls a) :
    Abides terms (pure a) calls (pure a) post := ⟨rfl, h⟩

theorem Abides.mono {p q : Program α} {calls : List Call} {post post' : List Call → α → Prop}
    (h : p.Abides terms calls q post) (imp : ∀ calls a, post calls a → post' calls a) :
    p.Abides terms calls q post' := by
  induction p generalizing calls q with
  | done a => exact ⟨h.1, imp _ _ h.2⟩
  | step a next ih =>
      obtain ⟨ho, next', rfl, hn⟩ := h
      exact ⟨ho, next', rfl, fun r calls' hm => ih r (hn r calls' hm)⟩

theorem abides_bind {p q : Program α} {f g : α → Program β} {calls : List Call}
    {post : List Call → β → Prop}
    (h : p.Abides terms calls q fun calls' a => (f a).Abides terms calls' (g a) post) :
    (p >>= f).Abides terms calls (q >>= g) post := by
  induction p generalizing calls q with
  | done a =>
      obtain ⟨rfl, h⟩ := h
      exact h
  | step a next ih =>
      obtain ⟨ho, next', rfl, hn⟩ := h
      exact ⟨ho, fun r => (next' r).bind g, rfl, fun r calls' hm => ih r (hn r calls' hm)⟩

theorem abides_perform {a : Action} {calls : List Call} {post : List Call → a.Response → Prop}
    (ho : Open terms calls a) (h : ∀ r calls', Move terms calls a r calls' → post calls' r) :
    (perform a).Abides terms calls (perform a) post :=
  ⟨ho, done, rfl, fun r calls' hm => ⟨rfl, h r calls' hm⟩⟩

theorem abides_perform_bind {a : Action} {calls : List Call} {f g : a.Response → Program β}
    {post : List Call → β → Prop} (ho : Open terms calls a)
    (h : ∀ r calls', Move terms calls a r calls' → (f r).Abides terms calls' (g r) post) :
    (perform a >>= f).Abides terms calls (perform a >>= g) post :=
  abides_bind (abides_perform ho h)

end Program

section Inversion

variable {terms : Terms} {calls calls' : List Call} {c : Call}

theorem not_callable (h : c.stage.run? = none) : ¬Callable (c :: calls) := by
  simp [Callable, h]

/-- A call that is not running a producer takes its own steps alone. -/
theorem Move.own_of_idle {a : Action} {r : a.Response} (hm : Move terms (c :: calls) a r calls')
    (idle : c.stage.run? = none) (stays : ∀ mode key before result,
      a ≠ .leave mode key before result) :
    ∃ s, c.stage.Next terms c.key c.offer a r s ∧ calls' = { c with stage := s } :: calls := by
  cases hm with
  | own h => exact ⟨_, h, rfl⟩
  | enter hc | refuse hc | aside hc => exact absurd hc (not_callable idle)
  | leave => exact absurd rfl (stays _ _ _ _)

/-- A step that is no aside and neither begins nor ends a call is a call's own. -/
theorem Move.own_of_inner {a : Action} {r : a.Response} (hm : Move terms (c :: calls) a r calls')
    (inner : ¬a.IsAside) (within : ∀ mode key offer, a ≠ .enter mode key offer)
    (stays : ∀ mode key before result, a ≠ .leave mode key before result) :
    ∃ s, c.stage.Next terms c.key c.offer a r s ∧ calls' = { c with stage := s } :: calls := by
  cases hm with
  | own h => exact ⟨_, h, rfl⟩
  | enter | refuse => exact absurd rfl (within _ _ _)
  | aside _ ha => exact absurd ha inner
  | leave => exact absurd rfl (stays _ _ _ _)

theorem move_observe {i : Nat} {notice : Notice} {r : Unit} (h : notice.registered? = none)
    (hm : Move terms calls (.observe i notice) r calls') : calls' = calls := by
  cases hm with
  | @own c _ _ _ _ hn =>
      obtain ⟨key, mode, offer, stage⟩ := c
      cases hn with
      | tell => simp [Notice.registered?] at h
      | observe => rfl
  | aside => rfl

/-- A client that may make calls comes back from an aside to where it was. -/
theorem move_aside {a : Action} {r : a.Response} (hc : Callable calls) (ha : a.IsAside)
    (hm : Move terms calls a r calls') : calls' = calls := by
  cases hm with
  | @own c _ _ _ _ hn =>
      obtain ⟨key, mode, offer, stage⟩ := c
      cases hn with
      | observe => rfl
      | tried | made => cases ha
      | _ => simp [Callable, Stage.run?] at hc
  | enter | refuse | leave => cases ha
  | aside => rfl

theorem open_observe {i : Nat} {notice : Notice} (h : notice.registered? = none) :
    Open terms calls (.observe i notice) := by
  cases calls with
  | nil => exact .move (.aside (r := ()) trivial h)
  | cons c calls => exact .move (.own (.observe h))

theorem open_own {a : Action} {r : a.Response} {s : Stage}
    (h : c.stage.Next terms c.key c.offer a r s) : Open terms (c :: calls) a :=
  .move (.own h)

theorem open_aside {a : Action} (hc : Callable calls) (ha : a.IsAside) : Open terms calls a := by
  have hr : Nonempty a.Response := by
    cases a with
    | newProducer => exact ⟨ProducerId.given 0⟩
    | findEntry | readCell => exact ⟨none⟩
    | countEntries | clearEntries => exact ⟨(0 : Nat)⟩
    | note | pause | yield | observe => exact ⟨()⟩
    | _ => cases ha
  exact hr.elim fun r => .move (.aside (r := r) hc ha)

end Inversion

end Wiring.Registry
