import Wiring.Proofs.Registry.Reach
import Wiring.Proofs.Registry.Brackets

/-!
Programs as they are carried out among others. A trace of a program is what one way through it does;
a client of a machine that carries a program out takes the steps of such a trace, each at some
moment of the run, whatever other clients do in between.
-/
namespace Wiring.Registry

namespace Program

variable {α β : Type} {c : ClientId}

/-- The steps of one way through a program, in order, and the value that it comes to. -/
def Traces (c : ClientId) : Program α → List Performed → α → Prop
  | done a, own, b => own = [] ∧ b = a
  | step a next, own, b => ∃ r rest, own = ⟨c, a, r⟩ :: rest ∧ (next r).Traces c rest b

theorem traces_pure {a b : α} {own : List Performed} :
    (pure a : Program α).Traces c own b ↔ own = [] ∧ b = a := Iff.rfl

theorem traces_bind {p : Program α} {f : α → Program β} {own : List Performed} {b : β} :
    (p >>= f).Traces c own b ↔
      ∃ first a rest, own = first ++ rest ∧ p.Traces c first a ∧ (f a).Traces c rest b := by
  induction p generalizing own with
  | done a =>
      constructor
      · exact fun h => ⟨[], a, own, rfl, ⟨rfl, rfl⟩, h⟩
      · rintro ⟨_, _, rest, rfl, ⟨rfl, rfl⟩, h⟩
        exact h
  | step a next ih =>
      constructor
      · rintro ⟨r, own, rfl, h⟩
        obtain ⟨first, x, rest, rfl, hp, hf⟩ := (ih r).1 h
        exact ⟨_, x, rest, rfl, ⟨r, first, rfl, hp⟩, hf⟩
      · rintro ⟨_, x, rest, rfl, ⟨r, first, rfl, hp⟩, hf⟩
        exact ⟨r, first ++ rest, rfl, (ih r).2 ⟨first, x, rest, rfl, hp, hf⟩⟩

theorem traces_perform {a : Action} {f : a.Response → Program β} {own : List Performed} {b : β} :
    (perform a >>= f).Traces c own b ↔
      ∃ r rest, own = ⟨c, a, r⟩ :: rest ∧ (f r).Traces c rest b := Iff.rfl

theorem traces_return {p : Program α} {f : α → β} {own : List Performed} {b : β} :
    Traces c (return f (← p)) own b ↔ ∃ a, p.Traces c own a ∧ b = f a := by
  rw [traces_bind]
  constructor
  · rintro ⟨first, a, rest, rfl, hp, rfl, rfl⟩
    exact ⟨a, by rwa [List.append_nil], rfl⟩
  · rintro ⟨a, hp, rfl⟩
    exact ⟨own, a, [], (List.append_nil own).symm, hp, rfl, rfl⟩

def tellings (c : ClientId) (observers : Nat) (notice : Notice) : List Performed :=
  (List.range observers).map fun i => ⟨c, .observe i notice, ()⟩

theorem traces_announce {observers : Nat} {notice : Notice} {own : List Performed} {u : Unit} :
    (announce observers notice).Traces c own u ↔ own = tellings c observers notice := by
  unfold announce tellings
  induction List.range observers generalizing own with
  | nil => exact and_iff_left rfl
  | cons i rest ih =>
      refine traces_perform.trans ?_
      constructor
      · rintro ⟨r, own, rfl, h⟩
        rw [ih.1 h]
        rfl
      · rintro rfl
        exact ⟨(), _, rfl, ih.2 rfl⟩

/-- A run of a producer is begun and ended once, with what its script does in between. -/
theorem traces_runProducer {setting : Setting} {runner : Runner} {runtime : Runtime}
    {slot : SlotId} {key : Key} {m : Mode} {producer : Producer m} {own : List Performed}
    {r : Resolved} (h : (runProducer setting runner runtime slot key producer).Traces c own r) :
    ∃ run inner outcome notice, (runner runtime (producer.script run)).Traces c inner outcome ∧
      own = tellings c setting.observers (.producing key) ++
        ⟨c, .beginRun slot key producer.id, run⟩ :: (inner ++
          ⟨c, .endRun slot key producer.id run outcome, r⟩ ::
            tellings c setting.observers notice) := by
  rw [runProducer_eq, traces_bind] at h
  obtain ⟨told, _, _, rfl, announced, begun⟩ := h
  obtain ⟨run, _, rfl, running⟩ := traces_perform.1 begun
  obtain ⟨inner, outcome, _, rfl, carried, ended⟩ := traces_bind.1 running
  obtain ⟨result, _, rfl, last⟩ := traces_perform.1 ended
  rw [traces_announce.1 announced]
  cases result with
  | ok inst =>
      obtain ⟨told, _, rest, rfl, announced, rfl, rfl⟩ := traces_bind.1 last
      rw [traces_announce.1 announced, List.append_nil]
      exact ⟨run, inner, outcome, _, carried, rfl⟩
  | error e =>
      obtain ⟨told, _, rest, rfl, announced, rfl, rfl⟩ := traces_bind.1 last
      rw [traces_announce.1 announced, List.append_nil]
      exact ⟨run, inner, outcome, _, carried, rfl⟩

/-- A call is refused as it begins, or what it does stands between its entry and its end. -/
theorem traces_guarded {mode : Mode} {key : Key} {offer : Option ProducerId}
    {body : Program Resolved} {own : List Performed} {r : Resolved} :
    (guarded mode key offer body).Traces c own r ↔
      (∃ e, own = [⟨c, .enter mode key offer, .error e⟩] ∧ r = .error e) ∨
      ∃ task inner, body.Traces c inner r ∧
        own = ⟨c, .enter mode key offer, .ok task⟩ :: (inner ++
          [⟨c, .leave mode key task r, ()⟩]) := by
  unfold guarded
  rw [traces_perform]
  constructor
  · rintro ⟨entered, rest, rfl, h⟩
    cases entered with
    | error e =>
        obtain ⟨rfl, rfl⟩ := h
        exact .inl ⟨e, rfl, rfl⟩
    | ok task =>
        obtain ⟨inner, result, rest, rfl, hb, _, rest, rfl, rfl, rfl⟩ := traces_bind.1 h
        exact .inr ⟨task, inner, hb, rfl⟩
  · rintro (⟨e, rfl, rfl⟩ | ⟨task, inner, hb, rfl⟩)
    · exact ⟨.error e, [], rfl, rfl, rfl⟩
    · exact ⟨.ok task, _, rfl, traces_bind.2 ⟨inner, r, _, rfl, hb, (), [], rfl, rfl, rfl⟩⟩

end Program

/-- From `w` the steps given lead to `w'`, with nobody else at work. -/
def Situation.Leads : List Performed → Situation → Situation → Prop
  | [], w, w' => w' = w
  | p :: own, w, w' => ∃ v : Situation,
      p.action.perform p.client w.trail w.store = some (p.response, v.trail, v.store) ∧
        v.history = p :: w.history ∧ v.Leads own w'

def History.ofClient (me : ClientId) (h : History) : History := h.filter fun p => p.client = me

/-- Client `c` carries `p` out on the way from one machine to another, with the steps given and up
to the value given; `κ` is what it goes on with then. -/
inductive Machine.CarriesOut (c : ClientId) {α : Type} (κ : α → Program (List Reply)) :
    Machine → Program α → List Performed → α → Machine → Prop
  | done {m : Machine} {t : Trail} {a : α} (here : m.clients[c]? = some ⟨t, κ a⟩) :
      CarriesOut c κ m (.done a) [] a m
  | own {m m₁ m' : Machine} {t : Trail} {action : Action} {next : action.Response → Program α}
      {r : action.Response} {own : List Performed} {a : α}
      (here : m.clients[c]? = some ⟨t, (Program.step action next).bind κ⟩)
      (hs : m.step c = some m₁) (history : m₁.history = ⟨c, action, r⟩ :: m.history)
      (rest : CarriesOut c κ m₁ (next r) own a m') :
      CarriesOut c κ m (.step action next) (⟨c, action, r⟩ :: own) a m'
  | other {m m₁ m' : Machine} {c' : ClientId} {p : Program α} {own : List Performed} {a : α}
      (hc : c' ≠ c) (hs : m.step c' = some m₁) (rest : CarriesOut c κ m₁ p own a m') :
      CarriesOut c κ m p own a m'

namespace Machine.CarriesOut

variable {c : ClientId} {α : Type} {κ : α → Program (List Reply)} {m m' : Machine} {p : Program α}
  {own : List Performed} {a : α}

theorem traces (carried : CarriesOut c κ m p own a m') : p.Traces c own a := by
  induction carried with
  | done => exact ⟨rfl, rfl⟩
  | own _ _ _ _ ih => exact ⟨_, _, rfl, ih⟩
  | other _ _ _ ih => exact ih

theorem reaches (carried : CarriesOut c κ m p own a m') : m.Reaches m' := by
  induction carried with
  | done => exact .start
  | own _ hs _ _ ih | other _ hs _ ih => exact (Machine.Reaches.step .start hs).trans ih

/-- A step of what is carried out was taken at some moment, after the steps before it and before
the rest. -/
theorem moment_ofClient (carried : CarriesOut c κ m p own a m') {x : Performed}
    {before after : List Performed} (split : own = before ++ x :: after) :
    ∃ m₁ m₂, m.Reaches m₁ ∧ m₁.step c = some m₂ ∧ m₂.history = x :: m₁.history ∧
      m₁.history.ofClient c = before.reverse ++ m.history.ofClient c ∧ m₂.Reaches m' := by
  induction carried generalizing before with
  | done => simp at split
  | @own m m₁ m' t action next r own a here hs history rest ih =>
      have first : m.Reaches m₁ := .step .start hs
      cases before with
      | nil =>
          cases split
          exact ⟨m, m₁, .start, hs, history, rfl, rest.reaches⟩
      | cons y before =>
          cases split
          obtain ⟨m₂, m₃, reach, hs', history', earlier, later⟩ := ih rfl
          refine ⟨m₂, m₃, first.trans reach, hs', history', ?_, later⟩
          rw [earlier, history]
          simp [History.ofClient]
  | @other m m₁ m' c' p own a hc hs rest ih =>
      obtain ⟨m₂, m₃, reach, hs', history', earlier, later⟩ := ih split
      refine ⟨m₂, m₃, (Machine.Reaches.step .start hs).trans reach, hs', history', ?_, later⟩
      obtain ⟨_, _, _, _, _, _, -, -, rfl⟩ := Machine.step_cases hs
      rw [earlier]
      simp [History.ofClient, hc]

theorem moment (carried : CarriesOut c κ m p own a m') {x : Performed}
    {before after : List Performed} (split : own = before ++ x :: after) :
    ∃ m₁ m₂, m.Reaches m₁ ∧ m₁.step c = some m₂ ∧ m₂.history = x :: m₁.history ∧
      (∀ y ∈ before, y ∈ m₁.history) ∧ m₂.Reaches m' := by
  obtain ⟨m₁, m₂, reach, hs, history, earlier, later⟩ := carried.moment_ofClient split
  refine ⟨m₁, m₂, reach, hs, history, fun y hy => ?_, later⟩
  have there : y ∈ m₁.history.ofClient c := by simp [earlier, hy]
  exact (List.mem_filter.1 there).1

theorem mem_history (carried : CarriesOut c κ m p own a m') {x : Performed} (hx : x ∈ own) :
    x ∈ m'.history := by
  obtain ⟨before, after, split⟩ := List.append_of_mem hx
  obtain ⟨m₁, m₂, -, -, history, -, later⟩ := carried.moment split
  exact later.suffix.subset (history ▸ List.mem_cons_self)

theorem length_le (carried : CarriesOut c κ m p own a m') :
    own.length + m.history.length ≤ m'.history.length := by
  induction carried with
  | done => simp
  | own _ _ history _ ih =>
      simp only [history, List.length_cons] at ih ⊢
      omega
  | other _ hs _ ih =>
      obtain ⟨_, _, _, _, _, _, -, -, rfl⟩ := Machine.step_cases hs
      simp only [List.length_cons] at ih
      omega

/-- Where nobody else has taken a step in between, the steps lead from the one machine to the
other. -/
theorem leads (carried : CarriesOut c κ m p own a m')
    (alone : m'.history = own.reverse ++ m.history) {t : Trail}
    (here : m.clients[c]? = some ⟨t, p.bind κ⟩) :
    ∃ w : Situation, Situation.Leads own ⟨t, m.store, m.history⟩ w ∧ w.store = m'.store ∧
      w.history = m'.history ∧ m'.clients[c]? = some ⟨w.trail, κ a⟩ ∧
        ∀ c', c' ≠ c → m'.clients[c']? = m.clients[c']? := by
  induction carried generalizing t with
  | done => exact ⟨_, rfl, rfl, rfl, here, fun _ _ => rfl⟩
  | @own m m₁ m' t₀ action next r own a here₀ hs history rest ih =>
      obtain ⟨_, _, _, r', trail', store, hc, hp, rfl⟩ := Machine.step_cases hs
      cases here.symm.trans hc
      cases history
      have there : (m.clients.set c ⟨trail', (next r).bind κ⟩)[c]? =
          some ⟨trail', (next r).bind κ⟩ :=
        List.getElem?_set_self (List.getElem?_eq_some_iff.1 here).1
      obtain ⟨w, leads, stored, told, last, others⟩ := ih (by rw [alone]; simp) there
      refine ⟨w, ⟨⟨trail', store, _⟩, hp, rfl, leads⟩, stored, told, last, fun c' hc' => ?_⟩
      rw [others c' hc']
      exact List.getElem?_set_ne (Ne.symm hc')
  | other _ hs rest =>
      have longer := rest.length_le
      obtain ⟨_, _, _, _, _, _, -, -, rfl⟩ := Machine.step_cases hs
      rw [alone] at longer
      simp only [List.length_append, List.length_reverse, List.length_cons] at longer
      omega

end Machine.CarriesOut

/-- Others do not touch what a client has left to do. -/
theorem Machine.follow_other {m m' : Machine} {c : ClientId} {order : List ClientId}
    (h : m.follow order = some m') (others : c ∉ order) : m'.clients[c]? = m.clients[c]? := by
  induction order generalizing m with
  | nil =>
      cases h
      rfl
  | cons c' rest ih =>
      obtain ⟨m₁, hs, h⟩ := Option.bind_eq_some_iff.1 h
      rw [List.mem_cons, not_or] at others
      exact (ih h others.2).trans (Machine.step_other (Ne.symm others.1) hs)

/-- What a client does with nobody else at work it carries out in a machine of many. -/
theorem Machine.exists_carriesOut {α : Type} {p : Program α} {κ : α → Program (List Reply)}
    {m : Machine} {c : ClientId} {t : Trail} {w : Situation} {a : α}
    (here : m.clients[c]? = some ⟨t, p.bind κ⟩)
    (ran : p.run c ⟨t, m.store, m.history⟩ = some (a, w)) :
    ∃ own m', CarriesOut c κ m p own a m' ∧ m'.history = w.history ∧
      m'.history = own.reverse ++ m.history := by
  induction p generalizing m t with
  | done b =>
      cases ran
      exact ⟨[], m, .done here, rfl, rfl⟩
  | step action next ih =>
      obtain ⟨⟨r, v⟩, hs, ran⟩ :=
        Option.bind_eq_some_iff.1 ((Program.run_perform ..).symm.trans ran)
      obtain ⟨performs, history⟩ := Program.advance_eq_some hs
      simp only at performs history
      have step : m.step c =
          some ⟨m.clients.set c ⟨v.trail, (next r).bind κ⟩, v.store, v.history⟩ := by
        simp only [Machine.step, here, Program.bind, performs, history]
      have there : (m.clients.set c ⟨v.trail, (next r).bind κ⟩)[c]? =
          some ⟨v.trail, (next r).bind κ⟩ :=
        List.getElem?_set_self (List.getElem?_eq_some_iff.1 here).1
      obtain ⟨own, m', carried, last, alone⟩ := ih r (m := ⟨_, v.store, v.history⟩) there ran
      refine ⟨_, m', .own here step history carried, last, ?_⟩
      simp [alone, history]

/-- A client with one demand is about to carry the call out that it demands. -/
theorem work_single {setting : Setting} {d : Demand} {p : Program Resolved}
    (call : d.program setting = do return Reply.resolved (← p)) :
    work setting [d] = p.bind fun r => .done [.resolved r] := by
  simp only [work, List.mapM_cons, List.mapM_nil, call, LawfulMonad.bind_assoc,
    LawfulMonad.pure_bind]
  rfl

/-- A client that has taken no step yet carries its call out where the others are at some point, if
it can do so with nobody else at work. -/
theorem Machine.exists_carriesOut_first {setting : Setting} {jobs : List (List Demand)}
    {c : ClientId} {d : Demand} {p : Program Resolved} {order : List ClientId} {m : Machine}
    {a : Resolved} {w : Situation} (job : jobs[c]? = some [d])
    (call : d.program setting = do return Reply.resolved (← p))
    (followed : (Machine.start setting jobs).follow order = some m) (others : c ∉ order)
    (ran : p.run c ⟨.empty, m.store, m.history⟩ = some (a, w)) :
    m.clients[c]? = some ⟨.empty, p.bind fun r => .done [.resolved r]⟩ ∧
      ∃ own m', CarriesOut c (fun r => .done [.resolved r]) m p own a m' ∧
        m'.history = w.history ∧ m'.history = own.reverse ++ m.history := by
  have here : m.clients[c]? = some ⟨.empty, p.bind fun r => .done [.resolved r]⟩ := by
    rw [Machine.follow_other followed others, ← work_single call]
    simp [Machine.start, job]
  exact ⟨here, Machine.exists_carriesOut here ran⟩

end Wiring.Registry
