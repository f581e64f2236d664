import Wiring.Proofs.Registry.Composition
import Wiring.Proofs.Registry.EntryStates

/-!
Observers are transparent. Programs, histories and machines are hushed by leaving the notices out
that observers are given. What clients do without observers, by the shorter way that runs then take,
is what they do with them, hushed; so replies, runs of producers and what the registry holds are the
same after every step.
-/
namespace Wiring.Registry

def Action.isNotice : Action → Bool
  | observe .. => true
  | _ => false

def History.hushed (h : History) : History := h.filter fun p => !p.action.isNotice

def Situation.hushed (w : Situation) : Situation := { w with history := w.history.hushed }

def Program.hushed {α : Type} : Program α → Program α
  | done a => done a
  | step (.observe _ _) next => (next ()).hushed
  | step a next => step a fun r => (next r).hushed

def Client.hushed (c : Client) : Client := ⟨c.trail, c.program.hushed⟩

def Machine.hushed (m : Machine) : Machine :=
  ⟨m.clients.map Client.hushed, m.store, m.history.hushed⟩

def Setting.unobserved (s : Setting) : Setting := { s with observers := 0 }

theorem Setting.sameAccessors_unobserved (s : Setting) : s.SameAccessors s.unobserved := rfl

namespace Program

variable {α β : Type} {a : Action}

theorem hushed_step (loud : a.isNotice = false) (next : a.Response → Program α) :
    (step a next).hushed = step a fun r => (next r).hushed := by
  cases a with
  | observe => cases loud
  | _ => rfl

theorem hushed_bind (p : Program α) (f : α → Program β) :
    (p >>= f).hushed = p.hushed >>= fun a => (f a).hushed := by
  induction p with
  | done a => rfl
  | step a next ih =>
      cases a with
      | observe => exact ih ()
      | _ => exact congrArg (step _) (funext ih)

theorem hushed_bind_eq {p q : Program α} {f g : α → Program β} (first : p.hushed = q)
    (rest : ∀ a, (f a).hushed = g a) : (p >>= f).hushed = q >>= g := by
  rw [hushed_bind, first]
  exact congrArg _ (funext rest)

theorem hushed_perform (loud : a.isNotice = false) (next : a.Response → Program α) :
    (perform a >>= next).hushed = perform a >>= fun r => (next r).hushed :=
  hushed_step loud next

theorem hushed_quiet (quiet : a.IsQuiet) {f g : a.Response → Program α}
    (rest : ∀ r, (f r).hushed = g r) : (perform a >>= f).hushed = perform a >>= g := by
  have loud : a.isNotice = false := by
    cases a with
    | observe => cases quiet
    | _ => rfl
  rw [hushed_perform loud]
  exact congrArg (bind _) (funext rest)

theorem hushed_unlessRegistered {slot : SlotId} {p q : Program (Except ResolveError Entry)}
    (h : p.hushed = q) : (unlessRegistered slot p).hushed = unlessRegistered slot q := by
  refine hushed_quiet (a := .readEntry slot) trivial fun found => ?_
  cases found with
  | some existing => rfl
  | none => exact h

/-- Nothing is left of an announcement. -/
theorem hushed_announce (observers : Nat) (notice : Notice) :
    (announce observers notice).hushed = pure () := by
  unfold announce
  induction List.range observers with
  | nil => rfl
  | cons i rest ih => exact ih

theorem hushed_announce_bind (observers : Nat) (notice : Notice) (p : Program α) :
    (announce observers notice >>= fun _ => p).hushed = p.hushed := by
  rw [hushed_bind, hushed_announce]
  rfl

theorem hushed_publishEntry (s : Setting) (e : Entry) :
    (publishEntry s e).hushed = publishEntry s.unobserved e := by
  refine (hushed_perform rfl _).trans (congrArg (bind _) (funext fun published => ?_))
  exact hushed_announce_bind ..

theorem hushed_published (s : Setting) (e : Entry) :
    Program.hushed (return Except.ok (ε := ResolveError) (← publishEntry s e)) =
      return .ok (← publishEntry s.unobserved e) :=
  hushed_bind_eq (hushed_publishEntry s e) fun _ => rfl

theorem hushed_reset (s : Setting) : (reset s).hushed = reset s.unobserved := by
  refine (hushed_perform rfl _).trans (congrArg (bind _) (funext fun dropped => ?_))
  exact hushed_announce ..

theorem hushed_runProducer {s : Setting} {runner runner' : Runner} {runtime : Runtime}
    {slot : SlotId} {key : Key} {m : Mode} {producer : Producer m}
    (related : ∀ script : Script m, (runner runtime script).hushed = runner' runtime script) :
    (runProducer s runner runtime slot key producer).hushed =
      runProducer s.unobserved runner' runtime slot key producer := by
  rw [runProducer_eq, runProducer_eq]
  refine (hushed_announce_bind ..).trans ?_
  refine (hushed_perform rfl _).trans (congrArg (bind _) (funext fun run => ?_))
  rw [hushed_bind, related]
  refine congrArg (bind _) (funext fun outcome => ?_)
  refine (hushed_perform rfl _).trans (congrArg (bind _) (funext fun result => ?_))
  cases result with
  | ok inst | error e => exact hushed_announce_bind ..

/-- What an eager registration is that nobody is told of. -/
theorem hushed_eagerly {s : Setting} {runner runner' : Runner} {runtime : Runtime} {slot : SlotId}
    {key : Key} {policy : Policy} {m : Mode} {producer : Producer m}
    {resolution : Instance → Resolution}
    (related : ∀ script : Script m, (runner runtime script).hushed = runner' runtime script) :
    (eagerly s runner runtime slot key policy producer resolution).hushed =
      eagerly s.unobserved runner' runtime slot key policy producer resolution := by
  refine (hushed_bind ..).trans ?_
  rw [hushed_runProducer related]
  refine congrArg (bind _) (funext fun result => ?_)
  cases result with
  | ok inst =>
      refine (hushed_bind ..).trans ?_
      rw [hushed_publishEntry]
      rfl
  | error e => rfl

end Program

def hushing (s : Setting) : Composition s s.unobserved where
  accessors := s.sameAccessors_unobserved
  Known _ _ := True
  Rel _ _ p q _ := p.hushed = q
  later _ _ := trivial
  done _ := rfl
  bind first rest := Program.hushed_bind_eq first fun a =>
    rest a _ (List.suffix_refl _) fun _ _ => trivial
  quiet quiet rest := Program.hushed_quiet quiet fun r =>
    rest r _ (List.suffix_cons _ _) ⟨0, List.mem_cons_self⟩ fun _ _ => trivial
  forget related := related
  handed related := Program.hushed_quiet (a := .newProducer) trivial fun id =>
    related id _ (List.suffix_refl _)
  accessor related := related
  deferred _ _ _ _ := Program.hushed_unlessRegistered (Program.hushed_published s _)
  run related _ _ := Program.hushed_runProducer fun script => related [] _ script
  eager related _ _ _ := Program.hushed_unlessRegistered
    (Program.hushed_eagerly fun script => related [] _ script)
  reset := Program.hushed_reset s

theorem hushed_work (s : Setting) (demands : List Demand) :
    (work s demands).hushed = work s.unobserved demands := (hushing s).work demands (h := [])

section Steps

variable {a : Action} {w : Situation} {me : ClientId} {α : Type}

theorem History.hushed_cons (loud : a.isNotice = false) (r : a.Response) (h : History) :
    History.hushed (⟨me, a, r⟩ :: h) = ⟨me, a, r⟩ :: h.hushed := by
  simp [History.hushed, loud]

theorem Action.eq_observe (silent : a.isNotice = true) : ∃ i notice, a = .observe i notice := by
  cases a with
  | observe i notice => exact ⟨i, notice, rfl⟩
  | _ => cases silent

/-- What a step does depends on no notice given before. -/
theorem advance_hushed (loud : a.isNotice = false) : Program.advance me a w.hushed =
    (Program.advance me a w).map fun x => (x.1, x.2.hushed) := by
  unfold Program.advance
  cases hp : a.perform me w.trail w.store with
  | none => simp [Situation.hushed, hp]
  | some x => simp [Situation.hushed, hp, History.hushed_cons loud]

theorem run_hushed (p : Program α) (w : Situation) :
    p.hushed.run me w.hushed = (p.run me w).map fun x => (x.1, x.2.hushed) := by
  induction p generalizing w with
  | done a => rfl
  | step a next ih =>
      cases ha : a.isNotice with
      | true =>
          obtain ⟨i, notice, rfl⟩ := Action.eq_observe ha
          exact ih () { w with history := ⟨me, .observe i notice, ()⟩ :: w.history }
      | false =>
          rw [Program.hushed_step ha, Program.run, Program.run, advance_hushed ha]
          cases Program.advance me a w with
          | none => rfl
          | some x => exact ih x.1 x.2

variable {m m' x : Machine} {c : ClientId}

theorem Machine.hushed_client : m.hushed.clients[c]? = m.clients[c]?.map Client.hushed :=
  List.getElem?_map

theorem Machine.step_notice {trail : Trail} {i : Nat} {notice : Notice}
    {next : Unit → Program (List Reply)}
    (hc : m.clients[c]? = some ⟨trail, .step (.observe i notice) next⟩) :
    ∃ m', m.step c = some m' ∧ m'.hushed = m.hushed ∧ m'.clients[c]? = some ⟨trail, next ()⟩ := by
  obtain ⟨hlt, hx⟩ := List.getElem?_eq_some_iff.1 hc
  refine ⟨⟨m.clients.set c ⟨trail, next ()⟩, m.store, ⟨c, .observe i notice, ()⟩ :: m.history⟩, ?_,
    ?_, List.getElem?_set_self hlt⟩
  · simp only [Machine.step, hc]
    rfl
  · have same : (m.clients.set c ⟨trail, next ()⟩).map Client.hushed =
        m.clients.map Client.hushed := by
      have here : Client.hushed ⟨trail, next ()⟩ = Client.hushed m.clients[c] := by
        rw [hx]
        rfl
      rw [List.map_set, here, ← List.map_set, List.set_getElem_self hlt]
    simp only [Machine.hushed, same]
    rfl

theorem Machine.step_loud {trail : Trail} {next : a.Response → Program (List Reply)}
    (loud : a.isNotice = false) (hc : m.clients[c]? = some ⟨trail, .step a next⟩) :
    m.hushed.step c = (m.step c).map Machine.hushed := by
  have hc' : m.hushed.clients[c]? = some ⟨trail, .step a fun r => (next r).hushed⟩ := by
    rw [Machine.hushed_client, hc, Option.map_some, Client.hushed, Program.hushed_step loud]
  simp only [Machine.step, hc, hc']
  cases hp : a.perform c trail m.store with
  | none => simp [Machine.hushed, hp]
  | some x => simp [Machine.hushed, hp, List.map_set, Client.hushed, History.hushed_cons loud]

/-- A step of a machine is one of the hushed machine, unless it is a notice. -/
theorem Machine.step_hushed (hs : m.step c = some m') :
    m'.hushed = m.hushed ∨ m.hushed.step c = some m'.hushed := by
  obtain ⟨trail, a, next, r, trail', store, hc, -, -⟩ := Machine.step_cases hs
  cases ha : a.isNotice with
  | true =>
      obtain ⟨i, notice, rfl⟩ := Action.eq_observe ha
      obtain ⟨m₁, hs₁, same, -⟩ := Machine.step_notice hc
      cases hs.symm.trans hs₁
      exact .inl same
  | false => exact .inr (by rw [Machine.step_loud ha hc, hs]; rfl)

theorem Machine.Reaches.hushed (reach : m.Reaches m') : m.hushed.Reaches m'.hushed := by
  induction reach with
  | start => exact .start
  | step _ hs ih =>
      cases Machine.step_hushed hs with
      | inl same => rwa [same]
      | inr step => exact .step ih step

/-- A client that still has something to do comes to it, with its notices given. -/
theorem Machine.reaches_loud {trail : Trail} {p : Program (List Reply)} {k : a.Response → _}
    (hc : m.clients[c]? = some ⟨trail, p⟩) (hp : p.hushed = .step a k) :
    ∃ m₁ next, m.Reaches m₁ ∧ m₁.hushed = m.hushed ∧ a.isNotice = false ∧
      m₁.clients[c]? = some ⟨trail, .step a next⟩ := by
  induction p generalizing m with
  | done replies => cases hp
  | step b next ih =>
      cases hb : b.isNotice with
      | true =>
          obtain ⟨i, notice, rfl⟩ := Action.eq_observe hb
          obtain ⟨m₁, hs, same, hc₁⟩ := Machine.step_notice hc
          obtain ⟨m₂, next', reach, same', loud, hc₂⟩ := ih () hc₁ hp
          have reach' := (Machine.Reaches.step .start hs).trans reach
          exact ⟨m₂, next', reach', same'.trans same, loud, hc₂⟩
      | false =>
          rw [Program.hushed_step hb] at hp
          cases hp
          exact ⟨m, next, .start, rfl, hb, hc⟩

/-- Whatever is reached without notices is reached with them. -/
theorem Machine.Reaches.of_hushed (reach : m.hushed.Reaches x) :
    ∃ m', m.Reaches m' ∧ m'.hushed = x := by
  generalize hm : m.hushed = m₀ at reach
  induction reach with
  | start => exact ⟨m, .start, hm⟩
  | @step _ x' c _ hs ih =>
      obtain ⟨m₁, reach, rfl⟩ := ih
      obtain ⟨trail, a, k, _, _, _, there, -, -⟩ := Machine.step_cases hs
      rw [Machine.hushed_client] at there
      obtain ⟨⟨_, p⟩, hc, client⟩ := Option.map_eq_some_iff.1 there
      obtain ⟨-, hp⟩ := (Client.mk.injEq ..).mp client
      obtain ⟨m₂, next, reach', same, loud, hc₂⟩ := Machine.reaches_loud hc hp
      rw [← same, Machine.step_loud loud hc₂] at hs
      obtain ⟨m₃, taken, rfl⟩ := Option.map_eq_some_iff.1 hs
      exact ⟨m₃, .step (reach.trans reach') taken, rfl⟩

theorem Machine.hushed_start (s : Setting) (jobs : List (List Demand)) :
    (Machine.start s jobs).hushed = Machine.start s.unobserved jobs := by
  simp [Machine.hushed, Machine.start, Client.hushed, hushed_work, History.hushed]

end Steps

/-- Observers are transparent. With them or without, a client that works from some situation gets
the same replies, has the same producers run in the same order, and leaves the same store; what the
registry answers about states, policies and entries is read off the store. Whatever the clients and
the order of their steps, the machines that are reached without observers are those that are
reached with them, but for the notices. -/
theorem observers_transparent (setting : Setting) :
    (∀ me demands w, (work setting.unobserved demands).run me w.hushed =
      ((work setting demands).run me w).map fun x => (x.1, x.2.hushed)) ∧
      ∀ jobs m, (Machine.start setting.unobserved jobs).Reaches m ↔
        ∃ m', (Machine.start setting jobs).Reaches m' ∧ m'.hushed = m := by
  refine ⟨fun me demands w => ?_, fun jobs m => ?_⟩
  · rw [← hushed_work]
    exact run_hushed _ _
  · rw [← Machine.hushed_start]
    constructor
    · exact Machine.Reaches.of_hushed
    · rintro ⟨m', reach, rfl⟩
      exact reach.hushed

end Wiring.Registry
