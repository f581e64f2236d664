import Wiring.Proofs.Registry.Agreement
import Wiring.Proofs.Registry.Enclosure
import Wiring.Proofs.Registry.Termination

/-!
Guards are dropped in the order in which they were set up, the last one first. The trail of a
client holds the calls that it has under way and nothing else, every call that ends finds its own
name where it put it, and whatever a call comes back with, it leaves the trail as it was. So a
later call meets nothing on the trail that an earlier one has left there.
-/
namespace Wiring.Registry

namespace Machine.CarriesOut

variable {c : ClientId} {α β : Type} {κ : α → Program (List Reply)} {m m' : Machine}
  {p : Program α} {own : List Performed} {a : α} {t : Trail}

theorem here (carried : CarriesOut c κ m p own a m') :
    ∃ t, m.clients[c]? = some ⟨t, p.bind κ⟩ := by
  induction carried with
  | done here | own here => exact ⟨_, here⟩
  | other hc hs _ ih =>
      obtain ⟨t, there⟩ := ih
      exact ⟨t, (Machine.step_other hc hs).symm.trans there⟩

/-- While others are at work, a client that has come to the end of a program stays there. -/
theorem of_done {b : α} (carried : CarriesOut c κ m (.done b) own a m')
    (here : m.clients[c]? = some ⟨t, κ b⟩) : a = b ∧ m'.clients[c]? = some ⟨t, κ b⟩ := by
  generalize hp : Program.done b = p at carried
  induction carried with
  | done =>
      cases hp
      exact ⟨rfl, here⟩
  | own => cases hp
  | other hc hs _ ih => exact ih ((Machine.step_other hc hs).trans here) hp

/-- The first step of a program is taken with the trail that the client has before it, whatever
others do until then. -/
theorem uncons {action : Action} {next : action.Response → Program α}
    (carried : CarriesOut c κ m (.step action next) own a m')
    (here : m.clients[c]? = some ⟨t, (Program.step action next).bind κ⟩) :
    ∃ s s' m₁ r t' rest, action.perform c t s = some (r, t', s') ∧
      m₁.clients[c]? = some ⟨t', (next r).bind κ⟩ ∧ CarriesOut c κ m₁ (next r) rest a m' := by
  generalize hp : Program.step action next = p at carried
  induction carried with
  | done => cases hp
  | @own m m₁ m' t₀ action₀ next₀ r own a here₀ hs history rest =>
      cases hp
      obtain ⟨_, _, _, _, trail', store, hc, performs, rfl⟩ := Machine.step_cases hs
      cases here.symm.trans hc
      cases history
      exact ⟨m.store, store, _, r, trail', own, performs,
        List.getElem?_set_self (List.getElem?_eq_some_iff.1 here).1, rest⟩
  | other hc hs _ ih => exact ih ((Machine.step_other hc hs).trans here) hp

/-- What two programs do one after another is carried out by the first of them and then by the
second. -/
theorem split {f : α → Program β} {κ : β → Program (List Reply)} {b : β}
    (carried : CarriesOut c κ m (p >>= f) own b m') :
    ∃ m₁ a first rest, CarriesOut c (fun a => (f a).bind κ) m p first a m₁ ∧
      CarriesOut c κ m₁ (f a) rest b m' := by
  generalize hq : p >>= f = q at carried
  induction carried generalizing p with
  | @done m t b here =>
      cases p with
      | done a =>
          have there : f a = .done b := hq
          exact ⟨m, a, [], [], .done (by rwa [there]), there ▸ .done here⟩
      | step => cases hq
  | @own m m₁ m' t action next r own b here hs history rest ih =>
      cases p with
      | done a =>
          have there : f a = .step action next := hq
          refine ⟨m, a, [], ⟨c, action, r⟩ :: own, .done (by rwa [there]), ?_⟩
          rw [there]
          exact .own here hs history rest
      | step action' next' =>
          cases hq
          obtain ⟨m₂, a, first, later, carried, after⟩ := ih (p := next' r) rfl
          have here' : m.clients[c]? =
              some ⟨t, (Program.step action next').bind fun a => (f a).bind κ⟩ := by
            rwa [← Program.bind_assoc]
          exact ⟨m₂, a, _, later, .own here' hs history carried, after⟩
  | other hc hs _ ih =>
      obtain ⟨m₂, a, first, later, carried, after⟩ := ih hq
      exact ⟨m₂, a, first, later, .other hc hs carried, after⟩

end Machine.CarriesOut

namespace Program

variable {α β : Type} {me : ClientId} {w v : Situation}

theorem perform_inner_trail {a : Action} (inner : a.IsInner) {t t' : Trail} {s s' : Store}
    {r : a.Response} (hp : a.perform me t s = some (r, t', s')) : t' = t := by
  rw [perform_inner inner] at hp
  obtain ⟨x, -, eq⟩ := Option.map_eq_some_iff.1 hp
  cases eq
  rfl

/-- Where a call is let in, it goes on with its name on the trail; where it is refused, with the
trail as it was. -/
theorem perform_enter {mode : Mode} {key : Key} {offer : Option ProducerId} {t t' : Trail}
    {s s' : Store} {r : Except ResolveError (List String)}
    (hp : (Action.enter mode key offer).perform me t s = some (r, t', s')) :
    (∃ e, r = .error e ∧ t' = t) ∨ (r = .ok t.task ∧ t' = t.enter key.name mode) := by
  simp only [Action.perform] at hp
  split at hp
  · next e _ =>
      cases hp
      exact .inl ⟨e, rfl, rfl⟩
  · cases hp
    exact .inr ⟨rfl, rfl⟩

/-- The end of a call takes off the trail what its entry has put there. -/
theorem perform_leave {mode : Mode} {key : Key} {t t' : Trail} {result : Resolved} {s s' : Store}
    {r : Unit} (hp : (Action.leave mode key t.task result).perform me (t.enter key.name mode) s =
      some (r, t', s')) : t' = t := by
  simp only [Action.perform, leave?_enter, Option.map_some] at hp
  cases hp
  rfl

/-- Whatever a woven program comes to, its client goes on with the trail that it had, though others
have been at work meanwhile. -/
theorem Woven.trail_kept {p : Program α} (woven : p.Woven) {κ : α → Program (List Reply)}
    {m m' : Machine} {own : List Performed} {a : α} {t : Trail}
    (carried : m.CarriesOut me κ p own a m') (here : m.clients[me]? = some ⟨t, p.bind κ⟩) :
    m'.clients[me]? = some ⟨t, κ a⟩ := by
  induction woven generalizing m m' own t with
  | value =>
      obtain ⟨rfl, there⟩ := carried.of_done here
      exact there
  | one inner =>
      obtain ⟨_, _, m₁, r, t', rest, performs, there, carried⟩ := carried.uncons here
      obtain rfl := perform_inner_trail inner performs
      obtain ⟨rfl, last⟩ := carried.of_done there
      exact last
  | bind _ _ first rest =>
      obtain ⟨m₁, a, _, _, begun, ended⟩ := carried.split
      exact rest a ended (first begun (by rwa [← Program.bind_assoc]))
  | @call mode key offer body _ inside =>
      obtain ⟨_, _, m₁, r, t', rest, performs, there, carried⟩ := carried.uncons here
      obtain ⟨e, rfl, rfl⟩ | ⟨rfl, rfl⟩ := perform_enter performs
      · obtain ⟨rfl, last⟩ := carried.of_done there
        exact last
      · obtain ⟨m₂, result, _, _, begun, ended⟩ := carried.split (p := body)
        have between := inside begun (by rwa [← Program.bind_assoc])
        obtain ⟨_, _, m₃, _, _, _, performs, last, ended⟩ := ended.uncons between
        obtain rfl := perform_leave performs
        obtain ⟨rfl, last⟩ := ended.of_done last
        exact last

/-- With nobody else at work a woven program leaves the trail as it was, whatever it comes to. -/
theorem Woven.trail_of_run {p : Program α} (woven : p.Woven) {a : α}
    (ran : p.run me w = some (a, v)) : v.trail = w.trail := by
  induction woven generalizing w v with
  | value =>
      cases ran
      rfl
  | one inner =>
      obtain ⟨⟨r, u⟩, hs, ran⟩ := Option.bind_eq_some_iff.1 ((run_perform ..).symm.trans ran)
      cases ran
      exact perform_inner_trail inner (advance_eq_some hs).1
  | bind _ _ first rest =>
      rw [run_bind] at ran
      obtain ⟨⟨b, u⟩, begun, ended⟩ := Option.bind_eq_some_iff.1 ran
      exact (rest b ended).trans (first begun)
  | @call mode key offer body _ inside =>
      unfold guarded at ran
      rw [run_perform] at ran
      obtain ⟨⟨r, u⟩, hs, ran⟩ := Option.bind_eq_some_iff.1 ran
      obtain ⟨e, rfl, same⟩ | ⟨rfl, entered⟩ := perform_enter (advance_eq_some hs).1
      · cases ran
        exact same
      · rw [run_bind] at ran
        obtain ⟨⟨result, x⟩, begun, ran⟩ := Option.bind_eq_some_iff.1 ran
        rw [run_perform] at ran
        obtain ⟨⟨_, y⟩, hs', ran⟩ := Option.bind_eq_some_iff.1 ran
        cases ran
        have leaves := (advance_eq_some hs').1
        rw [inside begun, entered] at leaves
        exact perform_leave leaves

/-- What a program does rests on the trail and the store, and on nothing that has happened
before. -/
theorem run_congr (p : Program α) {w w' : Situation} (trail : w.trail = w'.trail)
    (store : w.store = w'.store) :
    Option.Rel (fun x y => x.1 = y.1 ∧ x.2.trail = y.2.trail ∧ x.2.store = y.2.store)
      (p.run me w) (p.run me w') := by
  induction p generalizing w w' with
  | done a => exact .some ⟨rfl, trail, store⟩
  | step a next ih =>
      simp only [run, advance, trail, store]
      cases a.perform me w'.trail w'.store with
      | none => exact .none
      | some x => exact ih x.1 rfl rfl

end Program

/-- A client whose next step is the end of a call has the name of that call on top of its trail, and
goes on with what was there before the call. -/
theorem Machine.Conducted.pops {terms : Terms} {ends : ClientId → List Reply → Prop} {m : Machine}
    {keys : List Key} {calls : ClientId → List Call} (conducted : m.Conducted terms keys calls ends)
    {c : ClientId} {t : Trail} {mode : Mode} {key : Key} {before : List String} {result : Resolved}
    {next : Unit → Program (List Reply)}
    (here : m.clients[c]? = some ⟨t, .step (.leave mode key before result) next⟩) :
    ∃ outer : Trail, t = outer.enter key.name mode ∧ before = outer.task ∧
      ∃ m', m.step c = some m' ∧ m'.clients[c]? = some ⟨outer, next ()⟩ := by
  obtain rfl := conducted.trail c _ here
  obtain ⟨allowed, -⟩ := conducted.abides c _ here
  generalize hcs : calls c = cs at allowed
  cases allowed with
  | move moves =>
      cases moves with
      | @own call _ _ _ _ next =>
          obtain ⟨_, _, _, stage⟩ := call
          cases next
      | aside _ ha => cases ha
      | leave =>
          rename_i rest call _ _
          refine ⟨trailOf rest, rfl, rfl, ?_⟩
          have step : m.step c = some ⟨m.clients.set c ⟨trailOf rest, next ()⟩, m.store,
              ⟨c, .leave call.mode call.key (trailOf rest).task result, ()⟩ :: m.history⟩ := by
            simp only [Machine.step, here, Action.perform, hcs, leave?_trailOf, Option.map_some]
          exact ⟨_, step, List.getElem?_set_self (List.getElem?_eq_some_iff.1 here).1⟩

/-- How the clients of a machine keep their trails. -/
structure Machine.GuardsNest (setting : Setting) (m : Machine) : Prop where
  /-- The trail of a client holds the calls that it has under way, and nothing of any other. -/
  held : ∀ {c : ClientId} {client : Client}, m.clients[c]? = some client →
    ∃ calls : List Call, client.trail = trailOf calls ∧
      m.history.active c = calls.map fun call => (call.key, call.offer)
  /-- A call that is about to end finds its own name where it put it, with the task trail that it
  found then, and is not kept from ending. -/
  pops : ∀ {c : ClientId} {t : Trail} {mode : Mode} {key : Key} {before : List String}
    {result : Resolved} {next : Unit → Program (List Reply)},
    m.clients[c]? = some ⟨t, .step (.leave mode key before result) next⟩ →
      ∃ outer : Trail, t = outer.enter key.name mode ∧ before = outer.task ∧
        ∃ m', m.step c = some m' ∧ m'.clients[c]? = some ⟨outer, next ()⟩
  /-- Whatever a call comes back with, and whatever others do meanwhile, its client goes on with the
  trail that it had when it made the call. -/
  returns : ∀ {c : ClientId} {κ : Resolved → Program (List Reply)} {level : Nat}
    {runtime : Runtime} {mode : Mode} {key : Key} (x : EntryPoint mode) {own : List Performed}
    {r : Resolved} {m' : Machine} {t : Trail},
    CarriesOut c κ m (x.program setting (runScript setting level) runtime key) own r m' →
      m.clients[c]? =
        some ⟨t, (x.program setting (runScript setting level) runtime key).bind κ⟩ →
        m'.clients[c]? = some ⟨t, κ r⟩
  /-- Two ways on which a client may have come to one store, by calls that failed or by others, make
  no difference to any request that follows. -/
  later : ∀ {c : ClientId} {client : Client}, m.clients[c]? = some client →
    ∀ {α β : Type} {p : Program α} {q : Program β} {a : α} {b : β} {v v' : Situation},
      p.Woven → q.Woven → p.run c ⟨client.trail, m.store, m.history⟩ = some (a, v) →
        q.run c ⟨client.trail, m.store, m.history⟩ = some (b, v') → v.store = v'.store →
          ∀ {mode : Mode} (request : Request mode) (level : Nat) (runtime : Runtime),
            Option.Rel (fun x y => x.1 = y.1 ∧ x.2.trail = y.2.trail ∧ x.2.store = y.2.store)
              ((request.program setting (runScript setting level) runtime).run c v)
              ((request.program setting (runScript setting level) runtime).run c v')

/-- Guards are dropped in order, whichever calls are nested in which and whatever they come back
with. -/
theorem guards_nest {setting : Setting} {jobs : List (List Demand)} {m : Machine}
    (reach : (Machine.start setting jobs).Reaches m) : m.GuardsNest setting := by
  obtain ⟨keys, calls, conducted, shown⟩ :=
    reach.conducted (J := Shown) (fun _ => rfl) (shown_kept _)
  refine ⟨fun {c} client here => ⟨calls c, conducted.trail c _ here, shown c⟩, conducted.pops,
    ?_, ?_⟩
  · intro c κ level runtime mode key x own r m' t carried here
    have encloses : (x.program setting (runScript setting level) runtime key).Encloses
        Action.IsWork := Program.encloses_entryPoint (Program.encloses_runScript level) x
    exact encloses.woven.trail_kept carried here
  · intro c client _ α β p q a b v v' woven woven' ran ran' store mode request level runtime
    exact Program.run_congr _
      ((woven.trail_of_run ran).trans (woven'.trail_of_run ran').symm) store

def clockCall : EntryPoint .sync :=
  .register .singleton ⟨.accessor clockKey, (clockSetting.accessor clockKey).script .sync⟩

theorem clock_that_needs_itself_leaves_no_trace :
    ∃ m own error m', (Machine.start clockSetting [clockJob.take 1]).Reaches m ∧
      Machine.CarriesOut 0 (fun r => .done [.resolved r]) m
        (clockCall.program clockSetting (runScript clockSetting maxDepth) .none clockKey) own
          (.error error) m' ∧
      error = .circular [clockKey.name, clockKey.name] ∧
        m'.clients[0]? = some ⟨.empty, .done [.resolved (.error error)]⟩ := by
  have found : ((clockCall.program clockSetting (runScript clockSetting maxDepth) .none
      clockKey).run 0 ⟨.empty, .empty, []⟩).any fun x => match x.1 with
        | .error error => error = .circular [clockKey.name, clockKey.name]
        | .ok _ => False := by decide +kernel
  obtain ⟨⟨r, w⟩, ran, failed⟩ := (Option.any_eq_true _ _).1 found
  cases r with
  | ok inst => simp at failed
  | error error =>
      have followed : (Machine.start clockSetting [clockJob.take 1]).follow [] =
          some (Machine.start clockSetting [clockJob.take 1]) := rfl
      obtain ⟨here, own, m', carried, -, -⟩ :=
        Machine.exists_carriesOut_first (c := 0) (d := ⟨.inl (.resolve clockKey), .plain⟩) rfl rfl
          followed (by decide) ran
      exact ⟨_, own, error, m', .start, carried, of_decide_eq_true failed,
        (guards_nest .start).returns clockCall carried here⟩

end Wiring.Registry
