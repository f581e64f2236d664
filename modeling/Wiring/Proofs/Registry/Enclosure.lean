import Wiring.Proofs.Registry.Provenance
import Wiring.Proofs.Registry.Traces
import Wiring.Proofs.Registry.Weaving

/-!
Calls within calls. In what a client does calls begin and end as brackets do, and whatever it
publishes or runs is for the key of its innermost call. So in the middle of a run, where scripts
make calls of their own, nothing is published for the key of the run and nothing else is run for it.
-/
namespace Wiring.Registry

/-- What is under way after some steps depends on what was under way before them. -/
theorem History.active_append_congr {c : ClientId} {h h' : History}
    (same : h.active c = h'.active c) (l : List Performed) :
    History.active c (l ++ h) = History.active c (l ++ h') := by
  induction l with
  | nil => exact same
  | cons p l ih =>
      obtain ⟨c', a, r⟩ := p
      cases a with
      | enter => cases r <;> simp [History.active, ih]
      | leave => simp [History.active, ih]
      | _ => exact ih

/-- The steps begin the calls given, the innermost first, and do not end them. -/
def Opens (c : ClientId) (own : List Performed) (stack : List (Key × Option ProducerId)) : Prop :=
  ∀ h, History.active c (own.reverse ++ h) = stack ++ h.active c

namespace Opens

variable {c : ClientId} {own more : List Performed} {stack stack' : List (Key × Option ProducerId)}
  {mode : Mode} {key : Key} {offer : Option ProducerId}

theorem nil : Opens c [] [] := fun _ => rfl

theorem append (first : Opens c own stack) (rest : Opens c more stack') :
    Opens c (own ++ more) (stack' ++ stack) := by
  intro h
  rw [List.reverse_append, List.append_assoc, rest, first, List.append_assoc]

theorem cancel (whole : Opens c (own ++ more) stack) (first : Opens c own []) :
    Opens c more stack := by
  intro h
  rw [← whole h, List.reverse_append, List.append_assoc]
  exact History.active_append_congr (first h).symm _

theorem unique (opens : Opens c own stack) (opens' : Opens c own stack') : stack = stack' := by
  simpa using (opens []).symm.trans (opens' [])

theorem inner {a : Action} {r : a.Response} (inner : a.IsInner) : Opens c [⟨c, a, r⟩] [] := by
  intro h
  cases a with
  | enter | leave => cases inner
  | _ => rfl

theorem refused {e : ResolveError} : Opens c [⟨c, .enter mode key offer, .error e⟩] [] :=
  fun _ => rfl

theorem entered {task : List String} (opens : Opens c own stack) :
    Opens c (⟨c, .enter mode key offer, .ok task⟩ :: own) (stack ++ [(key, offer)]) := by
  intro h
  rw [List.reverse_cons, List.append_assoc, List.singleton_append, opens, History.active,
    if_pos rfl, List.append_assoc, List.singleton_append]

theorem leave {before : List String} {r : Resolved} {call : Key × Option ProducerId}
    (opens : Opens c own (call :: stack)) :
    Opens c (own ++ [⟨c, .leave mode key before r, ()⟩]) stack := by
  intro h
  rw [List.reverse_append, List.append_assoc, List.reverse_singleton, List.singleton_append,
    History.active, if_pos rfl, opens]
  rfl

end Opens

namespace Program

variable {α β : Type} {c : ClientId} {own before after : List Performed} {x : Performed}

/-- What stands in the middle of a call that is let in stands between its entry and its end. -/
theorem traces_guarded_inner {mode : Mode} {key : Key} {offer : Option ProducerId}
    {body : Program Resolved} {r : Resolved}
    (h : (guarded mode key offer body).Traces c (before ++ x :: after) r)
    (inner : x.action.IsInner) :
    ∃ task first mid, before = ⟨c, .enter mode key offer, .ok task⟩ :: first ∧
      after = mid ++ [⟨c, .leave mode key task r, ()⟩] ∧ body.Traces c (first ++ x :: mid) r := by
  have outer (y : Performed) (hy : x = y) (not_inner : ¬y.action.IsInner) : False :=
    not_inner (hy ▸ inner)
  obtain ⟨e, split, -⟩ | ⟨task, inside, hb, split⟩ := traces_guarded.1 h
  · cases before with
    | nil => exact (outer _ (List.cons.inj split).1 id).elim
    | cons y before => simp at split
  · cases before with
    | nil => exact (outer _ (List.cons.inj split).1 id).elim
    | cons y first =>
        obtain ⟨rfl, eq⟩ := List.cons.inj split
        obtain ⟨more, rfl, there⟩ | ⟨more, rfl, there⟩ := List.append_eq_append_iff.1 eq
        · cases more with
          | nil => exact (outer _ (List.cons.inj there).1 id).elim
          | cons z mid =>
              cases there
              exact ⟨task, first, mid, rfl, rfl, hb⟩
        · cases more with
          | nil => exact (outer _ (List.cons.inj there).1.symm id).elim
          | cons z more => simp at there

theorem traces_one {a : Action} {r : a.Response} :
    (perform a).Traces c own r ↔ own = [⟨c, a, r⟩] := by
  constructor
  · rintro ⟨r, _, rfl, rfl, rfl⟩
    rfl
  · rintro rfl
    exact ⟨r, [], rfl, rfl, rfl⟩

/-- A single step is not in the middle of anything. -/
theorem traces_one_inner {a : Action} {r : a.Response}
    (h : (perform a).Traces c (before ++ x :: after) r) : before = [] ∧ x = ⟨c, a, r⟩ := by
  obtain ⟨empty, eq⟩ | ⟨-, eq⟩ := List.append_eq_singleton_iff.1 (traces_one.1 h)
  · exact ⟨empty, (List.cons.inj eq).1⟩
  · cases eq

/-- Calls begin and end in a woven program as brackets do. -/
theorem Woven.opens {p : Program α} {a : α} (woven : p.Woven) (h : p.Traces c own a) :
    Opens c own [] := by
  induction woven generalizing own with
  | value =>
      obtain ⟨rfl, -⟩ := h
      exact .nil
  | one inner =>
      obtain rfl := traces_one.1 h
      exact .inner inner
  | bind _ _ first rest =>
      obtain ⟨_, a, _, rfl, hp, hf⟩ := traces_bind.1 h
      exact (first hp).append (rest a hf)
  | call _ inside =>
      obtain ⟨e, rfl, -⟩ | ⟨task, inner, hb, rfl⟩ := traces_guarded.1 h
      · exact .refused
      · exact (inside hb).entered.leave

theorem opens_tellings (observers : Nat) (notice : Notice) :
    Opens c (tellings c observers notice) [] :=
  (woven_announce observers notice).opens (a := ()) (traces_announce.2 rfl)

/-- A step of two programs is one of the first, or one of the second. -/
theorem traces_bind_inner {p : Program α} {f : α → Program β} {b : β}
    (h : (p >>= f).Traces c (before ++ x :: after) b) :
    (∃ mid a rest, after = mid ++ rest ∧ p.Traces c (before ++ x :: mid) a ∧
      (f a).Traces c rest b) ∨
      ∃ first a more, before = first ++ more ∧ p.Traces c first a ∧
        (f a).Traces c (more ++ x :: after) b := by
  obtain ⟨first, a, rest, split, hp, hf⟩ := traces_bind.1 h
  obtain ⟨mid, rfl, eq⟩ | ⟨more, rfl, rfl⟩ := List.append_eq_append_iff.1 split
  · cases mid with
    | nil =>
        rw [List.append_nil] at hp
        cases eq
        exact .inr ⟨before, a, [], (List.append_nil before).symm, hp, hf⟩
    | cons y mid =>
        cases eq
        exact .inl ⟨mid, a, rest, rfl, hp, hf⟩
  · exact .inr ⟨first, a, more, rfl, hp, hf⟩

/-- Before a step in the middle of a woven program no call has ended that the program has not
begun. -/
theorem Woven.opens_before {p : Program α} {a : α} (woven : p.Woven)
    (h : p.Traces c (before ++ x :: after) a) (inner : x.action.IsInner) :
    ∃ stack, Opens c before stack := by
  induction woven generalizing before after with
  | value =>
      obtain ⟨empty, -⟩ := h
      simp at empty
  | one =>
      obtain ⟨rfl, -⟩ := traces_one_inner h
      exact ⟨[], .nil⟩
  | bind woven _ first rest =>
      obtain ⟨mid, a, _, -, hp, -⟩ | ⟨begun, a, more, rfl, hp, hf⟩ := traces_bind_inner h
      · exact first hp
      · obtain ⟨stack, opens⟩ := rest a hf
        exact ⟨_, (woven.opens hp).append opens⟩
  | call _ inside =>
      obtain ⟨task, first, mid, rfl, -, hb⟩ := traces_guarded_inner h inner
      obtain ⟨stack, opens⟩ := inside hb
      exact ⟨_, opens.entered⟩

/-- Before a step that a program takes in calls only, one of them has begun. -/
theorem Encloses.opens {P : Action → Prop} {p : Program α} {a : α} (encloses : p.Encloses P)
    (h : p.Traces c (before ++ x :: after) a) (inner : x.action.IsInner) (there : P x.action) :
    ∃ call stack, Opens c before (call :: stack) := by
  induction encloses generalizing before after with
  | value =>
      obtain ⟨empty, -⟩ := h
      simp at empty
  | one _ idle =>
      obtain ⟨-, rfl⟩ := traces_one_inner h
      exact absurd there idle
  | bind encloses _ first rest =>
      obtain ⟨mid, a, _, -, hp, -⟩ | ⟨begun, a, more, rfl, hp, hf⟩ := traces_bind_inner h
      · exact first hp
      · obtain ⟨call, stack, opens⟩ := rest a hf
        exact ⟨call, _, (encloses.woven.opens hp).append opens⟩
  | @call mode key offer body inside =>
      obtain ⟨task, first, mid, rfl, -, hb⟩ := traces_guarded_inner h inner
      obtain ⟨stack, opens⟩ := inside.opens_before hb inner
      cases stack with
      | nil => exact ⟨(key, offer), [], opens.entered⟩
      | cons call stack => exact ⟨call, _, opens.entered⟩

/-- What two programs do outside of calls is done by the second of them, if the first one does it
in calls only. -/
theorem Encloses.traces_bind {P : Action → Prop} {p : Program α} {f : α → Program β} {b : β}
    (encloses : p.Encloses P) (h : (p >>= f).Traces c (before ++ x :: after) b)
    (inner : x.action.IsInner) (there : P x.action) (level : Opens c before []) :
    ∃ first a more, before = first ++ more ∧ p.Traces c first a ∧
      (f a).Traces c (more ++ x :: after) b ∧ Opens c more [] := by
  obtain ⟨mid, a, rest, -, hp, -⟩ | ⟨first, a, more, rfl, hp, hf⟩ := traces_bind_inner h
  · obtain ⟨call, stack, opens⟩ := encloses.opens hp inner there
    cases opens.unique level
  · exact ⟨first, a, more, rfl, hp, hf, level.cancel (encloses.woven.opens hp)⟩

/-- What two programs do outside of calls is done by the first of them, if the second one does it
in calls only. -/
theorem traces_bind_first {P : Action → Prop} {p : Program α} {f : α → Program β} {b : β}
    (woven : p.Woven) (encloses : ∀ a, (f a).Encloses P)
    (h : (p >>= f).Traces c (before ++ x :: after) b) (inner : x.action.IsInner)
    (there : P x.action) (level : Opens c before []) :
    ∃ mid a rest, after = mid ++ rest ∧ p.Traces c (before ++ x :: mid) a ∧
      (f a).Traces c rest b := by
  obtain here | ⟨first, a, more, rfl, hp, hf⟩ := traces_bind_inner h
  · exact here
  · obtain ⟨call, stack, opens⟩ := (encloses a).opens hf inner there
    cases ((woven.opens hp).append opens).unique level

end Program

section Keys

variable {terms : Terms} {key k : Key} {offer : Option ProducerId} {stage stage' : Stage}
  {a : Action} {r : a.Response}

theorem Stage.Next.work (n : stage.Next terms key offer a r stage') (works : a.work? = some k) :
    k = key := by
  cases n with
  | publish suits | publishMade suits =>
      cases works
      exact suits.key
  | attempt | tried | makeFresh | makeShared | made =>
      cases works
      rfl
  | _ => cases works

theorem Action.slot?_of_work? (works : a.work? = some k) : ∃ slot, a.slot? = some slot := by
  cases a with
  | publish | beginRun | endRun => exact ⟨_, rfl⟩
  | _ => cases works

theorem Action.IsInner.of_work? (works : a.work? = some k) : a.IsInner := by
  cases a with
  | enter | leave => cases works
  | _ => trivial

end Keys

theorem History.active_ofClient (c : ClientId) (h : History) :
    (h.ofClient c).active c = h.active c := by
  induction h with
  | nil => rfl
  | cons p h ih =>
      obtain ⟨c', a, r⟩ := p
      by_cases hc : c' = c
      · subst hc
        rw [History.ofClient, List.filter_cons_of_pos (by simp)]
        change History.active c' (_ :: History.ofClient c' h) = _
        cases a with
        | enter => cases r <;> simp [History.active, ih]
        | leave => simp [History.active, ih]
        | _ => exact ih
      · rw [History.ofClient, List.filter_cons_of_neg (by simp [hc])]
        refine ih.trans ?_
        cases a with
        | enter => cases r <;> simp [History.active, hc]
        | leave => simp [History.active, hc]
        | _ => rfl

section Machines

variable {setting : Setting} {jobs : List (List Demand)} {m m' : Machine} {c : ClientId} {key : Key}
  {x : Performed}

/-- What a client publishes or runs is for the key of its innermost call, and no other call that it
has under way is for this key. -/
theorem Machine.Reaches.innermost (reach : (Machine.start setting jobs).Reaches m)
    (hs : m.step c = some m') (history : m'.history = x :: m.history)
    (works : x.action.work? = some key) :
    ∃ offer outer, m.history.active c = (key, offer) :: outer ∧ ∀ call ∈ outer, call.1 ≠ key := by
  obtain ⟨keys, calls, conducted, traced⟩ := reach.traced
  obtain ⟨a, r, calls', keys', taken, history', -⟩ := conducted.step rfl hs (told_plain _)
  cases history.symm.trans history'
  obtain ⟨slot, works_on⟩ := Action.slot?_of_work? works
  obtain ⟨call, rest, stage, hcs, -, next⟩ := taken.own works_on
  obtain rfl := next.work works
  refine ⟨call.offer, rest.map fun call => (call.key, call.offer), ?_, fun outer ho he => ?_⟩
  · rw [traced.active, hcs]
    rfl
  · obtain ⟨y, hy, rfl⟩ := List.mem_map.1 ho
    have nested := (conducted.tenure.nested c).pairwise
    rw [hcs, List.pairwise_cons] at nested
    exact nested.1 y hy (congrArg Key.name he.symm)

/-- What is published or run for the key of a call, is so while no call is under way that the call
has made. -/
theorem Machine.CarriesOut.level {α : Type} {κ : α → Program (List Reply)} {p : Program α}
    {own first after : List Performed} {r : α} {mode : Mode} {offer : Option ProducerId}
    {task : List String} {stack : List (Key × Option ProducerId)}
    (reach : (Machine.start setting jobs).Reaches m) (carried : CarriesOut c κ m p own r m')
    (split : own = ⟨c, .enter mode key offer, .ok task⟩ :: first ++ x :: after)
    (opens : Opens c first stack) (works : x.action.work? = some key) : stack = [] := by
  obtain ⟨m₁, m₂, reach₁, hs, history, earlier, -⟩ := carried.moment_ofClient split
  obtain ⟨offer', outer, active, apart⟩ := (reach.trans reach₁).innermost hs history works
  have below : Opens c (⟨c, .enter mode key offer, .ok task⟩ :: first) (stack ++ [(key, offer)]) :=
    opens.entered
  rw [← History.active_ofClient, earlier, below, List.append_assoc] at active
  cases stack with
  | nil => rfl
  | cons call stack =>
      obtain ⟨-, rfl⟩ := List.cons.inj active
      exact absurd rfl (apart (key, offer) (by simp))

end Machines

end Wiring.Registry
