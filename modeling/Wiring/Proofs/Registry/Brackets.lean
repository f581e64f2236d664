import Wiring.Proofs.Registry.Candidates

/-!
The order of notices. What a client does that works alone is made up of quiet steps, of
publications and resets with their notices, and of runs of producers. A run stands between two
notices, as brackets do, and whatever its producer asks for stands between them too. A run that is
to register its entry has a slot without one; every other run is for an entry of which observers
have been told before.
-/
namespace Wiring.Registry

def Notice.ending {α : Type} (key : Key) : Except ResolveError α → Notice
  | .ok _ => .produced key
  | .error e => .failed key e

namespace History

variable (n : Nat) (me : ClientId)

def tell (notice : Notice) (h : History) : History :=
  (List.range n).foldl (fun h i => ⟨me, .observe i notice, ()⟩ :: h) h

def opened (slot : SlotId) (key : Key) (p : ProducerId) (run : Nat) (h : History) : History :=
  ⟨me, .beginRun slot key p, run⟩ :: h.tell n me (.producing key)

def closed (slot : SlotId) (key : Key) (p : ProducerId) (run : Nat) (outcome : Outcome)
    (result : Resolved) (h : History) : History :=
  tell n me (.ending key result) (⟨me, .endRun slot key p run outcome, result⟩ :: h)

def posted (e stored : Entry) (h : History) : History :=
  tell n me (.registered e.key e.policy) (⟨me, .publish e.slot e, stored⟩ :: h)

/-- All observers have been told of an entry. -/
def Posted (e : Entry) (h : History) : Prop :=
  ∃ before stored, posted n me e stored before <:+ h

end History

/-- The ways in which a client that works alone goes from one history to another with every run at
an end that it has begun. -/
inductive Brackets (n : Nat) (me : ClientId) : History → History → Prop
  | none {h : History} : Brackets n me h h
  | append {h h' h'' : History} (first : Brackets n me h h') (rest : Brackets n me h' h'') :
      Brackets n me h h''
  | quiet {h : History} {a : Action} {r : a.Response} (quiet : a.IsQuiet) :
      Brackets n me h (⟨me, a, r⟩ :: h)
  | reset {h : History} {dropped : Nat} :
      Brackets n me h (History.tell n me (.reset dropped) (⟨me, .clearEntries, dropped⟩ :: h))
  /-- An entry that is registered without a run. If its producer has been run before, that was for
  entries that were published in other slots. -/
  | deferred {h : History} {e stored : Entry} (policy : e.policy.isEager = false)
      (first : ∀ p, e.resolution.producer? = some p → h.RunsElsewhere e.slot p) :
      Brackets n me h (h.posted n me e stored)
  /-- A run for an entry. -/
  | made {h h' : History} {e : Entry} {p : ProducerId} {run : Nat} {result : Resolved}
      (told : h.Posted n me e) (policy : e.policy.isEager = false)
      (own : e.resolution.producer? = some p)
      (inner : Brackets n me (h.opened n me e.slot e.key p run) h') :
      Brackets n me h
        (h'.closed n me e.slot e.key p run (result.map Instance.payload) result)
  /-- A run that fails, for a slot in which nothing is published. -/
  | spoiled {h h' : History} {slot : SlotId} {key : Key} {p : ProducerId} {run : Nat}
      {error : ResolveError} (vacant : h.Vacant slot)
      (inner : Brackets n me (h.opened n me slot key p run) h') :
      Brackets n me h (h'.closed n me slot key p run (.error error) (.error error))
  /-- A run for a slot in which nothing is published, that registers what it has made. -/
  | eager {h h' : History} {e stored : Entry} {p : ProducerId} {run : Nat} {inst : Instance}
      (vacant : h.Vacant e.slot) (inner : Brackets n me (h.opened n me e.slot e.key p run) h')
      (policy : e.policy.isEager) (holds : e.resolution.instance? = some inst) :
      Brackets n me h
        ((h'.closed n me e.slot e.key p run (.ok inst.payload) (.ok inst)).posted n me e stored)

section Suffixes

variable {n : Nat} {me : ClientId} {h h' : History}

theorem History.suffix_tell (n : Nat) (me : ClientId) (notice : Notice) (h : History) :
    h <:+ h.tell n me notice := by
  unfold History.tell
  induction List.range n generalizing h with
  | nil => exact List.suffix_refl _
  | cons i rest ih => exact (List.suffix_cons _ _).trans (ih _)

theorem History.suffix_posted (e stored : Entry) : h <:+ h.posted n me e stored :=
  (List.suffix_cons _ _).trans (History.suffix_tell ..)

theorem History.suffix_opened (slot : SlotId) (key : Key) (p : ProducerId) (run : Nat) :
    h <:+ h.opened n me slot key p run :=
  (History.suffix_tell ..).trans (List.suffix_cons _ _)

theorem History.suffix_closed (slot : SlotId) (key : Key) (p : ProducerId) (run : Nat)
    (outcome : Outcome) (result : Resolved) :
    h <:+ h.closed n me slot key p run outcome result :=
  (List.suffix_cons _ _).trans (History.suffix_tell ..)

theorem Brackets.suffix (brackets : Brackets n me h h') : h <:+ h' := by
  induction brackets with
  | none => exact List.suffix_refl _
  | append _ _ first rest => exact first.trans rest
  | quiet => exact List.suffix_cons _ _
  | reset => exact (List.suffix_cons _ _).trans (History.suffix_tell ..)
  | deferred => exact History.suffix_posted ..
  | made _ _ _ _ inner | spoiled _ _ inner =>
      exact (History.suffix_opened ..).trans (inner.trans (History.suffix_closed ..))
  | eager _ _ _ _ inner =>
      exact (History.suffix_opened ..).trans
        (inner.trans ((History.suffix_closed ..).trans (History.suffix_posted ..)))

theorem History.Posted.mono {e : Entry} (told : h.Posted n me e) (later : h <:+ h') :
    h'.Posted n me e := by
  obtain ⟨before, stored, there⟩ := told
  exact ⟨before, stored, there.trans later⟩

end Suffixes

/-- Observers have been told of an entry, which holds what its policy says. -/
structure History.Knows (n : Nat) (me : ClientId) (h : History) (e : Entry) : Prop where
  told : h.Posted n me e
  policy : e.resolution.policy = e.policy

theorem History.Knows.mono {n : Nat} {me : ClientId} {h h' : History} {e : Entry}
    (known : h.Knows n me e) (later : h <:+ h') : h'.Knows n me e :=
  ⟨known.told.mono later, known.policy⟩

theorem History.Knows.deferred {n : Nat} {me : ClientId} {h : History} {e : Entry}
    (known : h.Knows n me e) {p : ProducerId} (own : e.resolution.producer? = some p) :
    e.policy.isEager = false := by
  rw [← known.policy]
  cases he : e.resolution with
  | singleton | singletonAsync => simp [he, Resolution.producer?, Resolution.maker?] at own
  | _ => rfl

def Situation.tell (n : Nat) (me : ClientId) (notice : Notice) (w : Situation) : Situation :=
  { w with history := w.history.tell n me notice }

/-- Observers have been told of all entries. -/
structure Situation.Informed (s : Setting) (me : ClientId) (w : Situation) : Prop where
  knows : ∀ slot e, (w.store.slot slot).entry = some e → w.history.Knows s.observers me e
  consistent : w.Consistent s

/-- Run from `w`, the program adds brackets to the history, and observers have been told of the
entries that it is about. -/
def Program.Adds (s : Setting) (me : ClientId) {α : Type} (w : Situation) (p : Program α)
    (about : α → List Entry) : Prop :=
  ∀ a w', p.run me w = some (a, w') →
    w'.Informed s me ∧ Brackets s.observers me w.history w'.history ∧
      ∀ e ∈ about a, w'.history.Knows s.observers me e

/-- Where there is a candidate, it is still to be registered. -/
def Situation.Ready (s : Setting) (me : ClientId) (x : Option Candidate) (w : Situation) : Prop :=
  w.Informed s me ∧ ∀ y ∈ x, y.Free s w

/-- The program adds brackets wherever it is run after `h`. -/
def Program.MakesUp (s : Setting) (me : ClientId) {α : Type} (h : History) (x : Option Candidate)
    (p : Program α) (about : α → List Entry) : Prop :=
  ∀ w, h <:+ w.history → w.Ready s me x → p.Adds s me w about

section Steps

variable {s : Setting} {me : ClientId} {w w' : Situation} {a : Action}

theorem run_announce (n : Nat) (me : ClientId) (notice : Notice) (w : Situation) :
    (Program.announce n notice).run me w = some ((), w.tell n me notice) := by
  unfold Program.announce Situation.tell History.tell
  induction List.range n generalizing w with
  | nil => rfl
  | cons i rest ih => exact ih { w with history := ⟨me, .observe i notice, ()⟩ :: w.history }

theorem Situation.Informed.start (s : Setting) (me : ClientId) :
    Informed s me ⟨.empty, .empty, []⟩ where
  knows slot e he := by simp [Store.slot, Store.empty, Slot.fresh] at he
  consistent := .start s

theorem Situation.Informed.advance (informed : w.Informed s me) {r : a.Response}
    (hs : Program.advance me a w = some (r, w')) (allowed : a.Allowed s w.store)
    (still : ∀ slot e, a ≠ .publish slot e) : w'.Informed s me := by
  obtain ⟨hp, history⟩ := Program.advance_eq_some hs
  refine ⟨fun slot e he => ?_, informed.consistent.advance hs allowed⟩
  rw [Action.perform_entry hp still] at he
  exact (informed.knows slot e he).mono (history ▸ List.suffix_cons _ _)

theorem Situation.Consistent.tell (consistent : w.Consistent s) (n : Nat) (notice : Notice) :
    (w.tell n me notice).Consistent s := by
  unfold Situation.tell History.tell
  induction List.range n generalizing w with
  | nil => exact consistent
  | cons i rest ih =>
      have told : Program.advance me (.observe i notice) w =
        some ((), { w with history := ⟨me, .observe i notice, ()⟩ :: w.history }) := rfl
      exact ih (consistent.advance told trivial)

theorem Situation.Informed.tell (informed : w.Informed s me) (n : Nat) (notice : Notice) :
    (w.tell n me notice).Informed s me where
  knows slot e he := (informed.knows slot e he).mono (History.suffix_tell ..)
  consistent := informed.consistent.tell n notice

end Steps

namespace Program

variable {s : Setting} {me : ClientId} {w w' : Situation} {α β : Type} {h : History}
  {x : Option Candidate} {a : Action} {runner : Runner} {runtime : Runtime}

theorem run_perform (a : Action) (f : a.Response → Program β) (me : ClientId) (w : Situation) :
    (perform a >>= f).run me w = (advance me a w).bind fun x => (f x.1).run me x.2 := by
  change (step a f).run me w = _
  rw [run]
  cases advance me a w <;> rfl

theorem run_tell (n : Nat) (notice : Notice) (p : Program α) (me : ClientId) (w : Situation) :
    (announce n notice >>= fun _ => p).run me w = p.run me (w.tell n me notice) := by
  rw [run_bind, run_announce]
  rfl

section Parts

variable {about : α → List Entry} {about' : β → List Entry}

theorem makesUp_pure {a : α} (known : ∀ e ∈ about a, h.Knows s.observers me e) :
    (pure a : Program α).MakesUp s me h x about := by
  intro w later ready a w' ran
  cases ran
  exact ⟨ready.1, .none, fun e he => (known e he).mono later⟩

theorem makesUp_bind {p : Program α} {f : α → Program β} (first : p.MakesUp s me h x about)
    (rest : ∀ a (h' : History), h <:+ h' → (∀ e ∈ about a, h'.Knows s.observers me e) →
      (f a).MakesUp s me h' none about') :
    (p >>= f).MakesUp s me h x about' := by
  intro w later ready b w'' ran
  rw [run_bind] at ran
  obtain ⟨⟨a, w'⟩, ran, more⟩ := Option.bind_eq_some_iff.1 ran
  obtain ⟨informed, brackets, known⟩ := first w later ready a w' ran
  obtain ⟨informed', brackets', known'⟩ := rest a w'.history (later.trans brackets.suffix) known w'
    (List.suffix_refl _) ⟨informed, nofun⟩ b w'' more
  exact ⟨informed', brackets.append brackets', known'⟩

theorem makesUp_forget {p : Program α} (made : p.MakesUp s me h none about) :
    p.MakesUp s me h x about :=
  fun w later ready => made w later ⟨ready.1, nofun⟩

/-- What a quiet step leaves behind. -/
theorem ready_quiet {r : a.Response} (quiet : a.IsQuiet) (ready : w.Ready s me x)
    (hs : advance me a w = some (r, w')) : w'.Ready s me x := by
  refine ⟨ready.1.advance hs ?_ ?_, fun y hy => (ready.2 y hy).advance hs quiet⟩
  · cases a with
    | publish | beginRun => cases quiet
    | _ => trivial
  · rintro slot e rfl
    cases quiet

theorem known_found {r : a.Response} (informed : w.Informed s me)
    (hs : advance me a w = some (r, w')) :
    ∀ e ∈ a.found r, w'.history.Knows s.observers me e := by
  obtain ⟨hp, history⟩ := advance_eq_some hs
  have grown : w.history <:+ w'.history := history ▸ List.suffix_cons _ _
  intro e he
  cases a with
  | findEntry key =>
      obtain rfl := (Prod.mk.inj (Option.some.inj hp)).1
      obtain ⟨id, -, he⟩ := Option.bind_eq_some_iff.1 (Option.mem_toList.1 he)
      exact (informed.knows id e he).mono grown
  | readEntry slot =>
      obtain rfl := (Prod.mk.inj (Option.some.inj hp)).1
      exact (informed.knows slot e (Option.mem_toList.1 he)).mono grown
  | _ => cases he

/-- A quiet step is followed by what adds brackets from the situation it leaves behind. -/
theorem adds_quiet {f : a.Response → Program β} (quiet : a.IsQuiet)
    (rest : ∀ r w', advance me a w = some (r, w') → (f r).Adds s me w' about') :
    (perform a >>= f).Adds s me w about' := by
  intro b w'' ran
  rw [run_perform] at ran
  obtain ⟨⟨r, w'⟩, hs, ran⟩ := Option.bind_eq_some_iff.1 ran
  obtain ⟨informed, brackets, known⟩ := rest r w' hs b w'' ran
  have first : Brackets s.observers me w.history w'.history :=
    (advance_eq_some hs).2 ▸ .quiet quiet
  exact ⟨informed, first.append brackets, known⟩

theorem makesUp_quiet {f : a.Response → Program β} (quiet : a.IsQuiet)
    (rest : ∀ r (h' : History), h <:+ h' → (∃ c, (⟨c, a, r⟩ : Performed) ∈ h') →
      (∀ e ∈ a.found r, h'.Knows s.observers me e) → (f r).MakesUp s me h' x about') :
    (perform a >>= f).MakesUp s me h x about' := by
  refine fun w later ready => adds_quiet quiet fun r w' hs => ?_
  have history := (advance_eq_some hs).2
  exact rest r w'.history (later.trans (history ▸ List.suffix_cons _ _))
    ⟨me, history ▸ List.mem_cons_self⟩ (known_found ready.1 hs) w' (List.suffix_refl _)
    (ready_quiet quiet ready hs)

theorem makesUp_handed {policy : Policy} {f : ProducerId → Program β}
    (rest : ∀ id (h' : History), h <:+ h' →
      (f id).MakesUp s me h' (some ⟨id, policy⟩) about') :
    (perform .newProducer >>= f).MakesUp s me h none about' := by
  refine fun w later ready => adds_quiet (a := .newProducer) trivial fun id w' hs => ?_
  have history := (advance_eq_some hs).2
  refine rest id w'.history (later.trans (history ▸ List.suffix_cons _ _)) w' (List.suffix_refl _)
    ⟨(ready_quiet (a := .newProducer) trivial ready hs).1, fun y hy => ?_⟩
  cases hy
  exact .fresh ready.1.consistent hs policy

theorem makesUp_accessor {key : Key} {p : Program α}
    (made : p.MakesUp s me h (some ⟨.accessor key, (s.accessor key).policy⟩) about) :
    p.MakesUp s me h none about := by
  refine fun w later ready => made w later ⟨ready.1, fun y hy => ?_⟩
  cases hy
  exact .accessor w key

/-- A registration adds brackets if it does from where the slot has been found to have no entry. -/
theorem makesUp_unlessRegistered {slot : SlotId} {register : Program (Except ResolveError Entry)}
    (made : ∀ w, h <:+ w.history → w.Ready s me x → (w.store.slot slot).entry = none →
      register.Adds s me w registeredIn) :
    (unlessRegistered slot register).MakesUp s me h x registeredIn := by
  refine fun w later ready => adds_quiet (a := .readEntry slot) trivial fun found w' hs => ?_
  obtain ⟨hp, history⟩ := advance_eq_some hs
  have ready' := ready_quiet (a := .readEntry slot) trivial ready hs
  cases found with
  | some existing =>
      have known : ∀ e ∈ registeredIn (.ok existing), w'.history.Knows s.observers me e :=
        known_found ready.1 hs
      exact makesUp_pure known w' (List.suffix_refl _) ready'
  | none =>
      refine made w' (later.trans (history ▸ List.suffix_cons _ _)) ready' ?_
      obtain ⟨entry, rest⟩ := Prod.mk.inj (Option.some.inj hp)
      rw [← (Prod.mk.inj rest).2, entry]

theorem makesUp_reset : (reset s).MakesUp s me h none nowhere := by
  intro w later ready _ w' ran
  unfold reset at ran
  rw [run_perform] at ran
  obtain ⟨⟨dropped, w₁⟩, hs, ran⟩ := Option.bind_eq_some_iff.1 ran
  rw [run_announce] at ran
  cases ran
  have history := (advance_eq_some hs).2
  have informed := ready.1.advance hs trivial nofun
  refine ⟨informed.tell .., ?_, forall_mem_nowhere _⟩
  rw [Situation.tell, history]
  exact .reset

end Parts

section Publications

variable {e stored : Entry}

theorem run_publishEntry (ran : (publishEntry s e).run me w = some (stored, w')) :
    ∃ w₁, advance me (.publish e.slot e) w = some (stored, w₁) ∧
      w' = w₁.tell s.observers me (.registered e.key e.policy) := by
  unfold publishEntry at ran
  rw [run_perform] at ran
  obtain ⟨⟨r, w₁⟩, hs, ran⟩ := Option.bind_eq_some_iff.1 ran
  rw [run_tell] at ran
  cases ran
  exact ⟨w₁, hs, rfl⟩

/-- After a publication observers know of the entry, and of the one that was there before. -/
theorem informed_publishEntry (policy : e.resolution.policy = e.policy)
    (informed : w.Informed s me) (allowed : (Action.publish e.slot e).Allowed s w.store)
    (ran : (publishEntry s e).run me w = some (stored, w')) :
    w'.Informed s me ∧ w'.history = w.history.posted s.observers me e stored ∧
      w'.history.Knows s.observers me stored := by
  obtain ⟨w₁, hs, rfl⟩ := run_publishEntry ran
  obtain ⟨hp, history⟩ := advance_eq_some hs
  have posted : (w₁.tell s.observers me (.registered e.key e.policy)).history =
      w.history.posted s.observers me e stored := by
    rw [Situation.tell, history]
    rfl
  have known : ∀ slot x, (w₁.store.slot slot).entry = some x →
      History.Knows s.observers me (w.history.posted s.observers me e stored) x := by
    intro slot x hx
    cases Action.entry_cases hp hx with
    | inl there => exact (informed.knows slot x there).mono (History.suffix_posted ..)
    | inr now =>
        cases now
        exact ⟨⟨w.history, stored, List.suffix_refl _⟩, policy⟩
  refine ⟨⟨?_, ?_⟩, posted, ?_⟩
  · rw [posted]
    exact known
  · exact (informed.consistent.advance hs allowed).tell ..
  · rw [posted]
    exact known e.slot stored (Action.entry_published hp allowed.1)

theorem makesUp_deferred {slot : SlotId} {key : Key} {y : Candidate} {resolution : Resolution}
    (claimed : h.Claims slot) (deferred : y.policy.isEager = false)
    (policy : resolution.policy = y.policy) (own : resolution.producer? = some y.producer) :
    (unlessRegistered slot
      (return .ok (← publishEntry s ⟨key, y.policy, slot, resolution⟩))).MakesUp s me h (some y)
        registeredIn := by
  refine makesUp_unlessRegistered fun w later ready vacant r w' ran => ?_
  obtain ⟨informed, free⟩ := ready
  have free : y.Free s w := free y rfl
  have elsewhere := free.runsElsewhere informed.consistent deferred vacant
  have allowed : (Action.publish slot ⟨key, y.policy, slot, resolution⟩).Allowed s w.store := by
    refine ⟨informed.consistent.claimed slot (claimed.mono later), fun p own' => ?_⟩
    cases own.symm.trans own'
    exact free.numbered
  rw [run_bind] at ran
  obtain ⟨⟨stored, w₁⟩, posting, ran⟩ := Option.bind_eq_some_iff.1 ran
  cases ran
  obtain ⟨informed', posted, known⟩ := informed_publishEntry policy informed allowed posting
  refine ⟨informed', ?_, fun e he => ?_⟩
  · rw [posted]
    refine .deferred deferred fun p own' => ?_
    cases own.symm.trans own'
    exact elsewhere
  · cases List.mem_singleton.1 he
    exact known

end Publications

section Runs

variable {slot : SlotId} {key : Key} {m : Mode} {producer : Producer m}

theorem advance_endRun {p : ProducerId} {run : Nat} {outcome : Outcome} {result : Resolved}
    (ended : advance me (.endRun slot key p run outcome) w = some (result, w')) :
    outcome = result.map Instance.payload := by
  obtain ⟨hp, -⟩ := advance_eq_some ended
  cases outcome with
  | ok payload | error e =>
      rw [← (Prod.mk.inj (Option.some.inj hp)).1]
      rfl

/-- The steps of a run, with what its script has come to. -/
theorem run_runProducer {result : Resolved}
    (ran : (runProducer s runner runtime slot key producer).run me w = some (result, w')) :
    ∃ run outcome w₁ w₂ w₃,
      advance me (.beginRun slot key producer.id) (w.tell s.observers me (.producing key)) =
        some (run, w₁) ∧
      (runner runtime (producer.script run)).run me w₁ = some (outcome, w₂) ∧
      advance me (.endRun slot key producer.id run outcome) w₂ = some (result, w₃) ∧
      w' = w₃.tell s.observers me (.ending key result) := by
  rw [runProducer_eq, run_tell, run_perform] at ran
  obtain ⟨⟨run, w₁⟩, began, ran⟩ := Option.bind_eq_some_iff.1 ran
  rw [run_bind] at ran
  obtain ⟨⟨outcome, w₂⟩, inner, ran⟩ := Option.bind_eq_some_iff.1 ran
  rw [run_perform] at ran
  obtain ⟨⟨result', w₃⟩, ended, ran⟩ := Option.bind_eq_some_iff.1 ran
  refine ⟨run, outcome, w₁, w₂, w₃, began, inner, ?_⟩
  cases result' with
  | ok inst | error e =>
      rw [run_tell] at ran
      cases ran
      exact ⟨ended, rfl⟩

variable (related : ∀ (h : History) (script : Script m),
    (runner runtime script).MakesUp s me h none nowhere)

include related

/-- What the script of a run does stands between the notices of the run. -/
theorem inner_runProducer {result : Resolved} (informed : w.Informed s me)
    (may : w.store.MayRun s slot producer.id)
    (ran : (runProducer s runner runtime slot key producer).run me w = some (result, w')) :
    w'.Informed s me ∧ ∃ run h',
      Brackets s.observers me (w.history.opened s.observers me slot key producer.id run) h' ∧
        w'.history = h'.closed s.observers me slot key producer.id run
          (result.map Instance.payload) result := by
  obtain ⟨run, outcome, w₁, w₂, w₃, began, inner, ended, rfl⟩ := run_runProducer ran
  have informed₁ : w₁.Informed s me := (informed.tell ..).advance began may nofun
  obtain ⟨informed₂, brackets, -⟩ :=
    related w₁.history _ w₁ (List.suffix_refl _) ⟨informed₁, nofun⟩ _ w₂ inner
  have informed₃ : w₃.Informed s me := informed₂.advance ended trivial nofun
  obtain rfl := advance_endRun ended
  have opened : w₁.history = w.history.opened s.observers me slot key producer.id run :=
    (advance_eq_some began).2
  have closed := congrArg (History.tell s.observers me (.ending key result))
    (advance_eq_some ended).2
  exact ⟨informed₃.tell .., run, w₂.history, opened ▸ brackets, closed⟩

theorem makesUp_runProducer {e : Entry} (known : h.Knows s.observers me e)
    (own : e.resolution.maker? = some ⟨m, producer⟩) :
    (runProducer s runner runtime e.slot e.key producer).MakesUp s me h none nowhere := by
  intro w later ready result w' ran
  have id : e.resolution.producer? = some producer.id := by rw [Resolution.producer?, own]; rfl
  have told := known.told.mono later
  have may : w.store.MayRun s e.slot producer.id := by
    obtain ⟨before, stored, there⟩ := told
    have published : ⟨me, .publish e.slot e, stored⟩ ∈ w.history :=
      there.subset ((History.suffix_tell ..).subset List.mem_cons_self)
    obtain ⟨entry, numbered⟩ := ready.1.consistent.published _ _ _ _ published
    exact ⟨numbered _ id, .inl entry⟩
  obtain ⟨informed, run, h', inner, closed⟩ := inner_runProducer related ready.1 may ran
  exact ⟨informed, closed ▸ .made told (known.deferred id) id inner, forall_mem_nowhere _⟩

theorem makesUp_eagerly {policy : Policy} {resolution : Instance → Resolution}
    (claimed : h.Claims slot) (eager : policy.isEager)
    (holds : ∀ inst, (resolution inst).policy = policy ∧
      (resolution inst).instance? = some inst) :
    (unlessRegistered slot
      (eagerly s runner runtime slot key policy producer resolution)).MakesUp s me h
        (some ⟨producer.id, policy⟩) registeredIn := by
  refine makesUp_unlessRegistered fun w later ready vacant r w'' ran => ?_
  obtain ⟨informed, free⟩ := ready
  have free : Candidate.Free s w ⟨producer.id, policy⟩ := free _ rfl
  have vacant := informed.consistent.vacant vacant
  unfold eagerly at ran
  rw [run_bind] at ran
  obtain ⟨⟨result, w'⟩, first, ran⟩ := Option.bind_eq_some_iff.1 ran
  obtain ⟨informed', run, h', inner, closed⟩ :=
    inner_runProducer related informed (free.mayRun eager) first
  cases result with
  | error e =>
      cases ran
      exact ⟨informed', closed ▸ .spoiled vacant inner, forall_mem_refused e⟩
  | ok inst =>
      obtain ⟨policy', instance'⟩ := holds inst
      rw [run_bind] at ran
      obtain ⟨⟨stored, w₁⟩, posting, ran⟩ := Option.bind_eq_some_iff.1 ran
      cases ran
      have grown : w.history <:+ w'.history := by
        rw [closed]
        exact (History.suffix_opened ..).trans (inner.suffix.trans (History.suffix_closed ..))
      have allowed : (Action.publish slot ⟨key, policy, slot, resolution inst⟩).Allowed s
          w'.store := by
        have within := informed'.consistent.claimed slot (claimed.mono (later.trans grown))
        refine ⟨within, fun p own => ?_⟩
        cases (Resolution.instance?_of_producer own).symm.trans instance'
      obtain ⟨informed'', posted, known⟩ := informed_publishEntry policy' informed' allowed posting
      refine ⟨informed'', ?_, fun e he => ?_⟩
      · rw [posted, closed]
        exact .eager (e := ⟨key, policy, slot, resolution inst⟩) vacant inner eager instance'
      · cases List.mem_singleton.1 he
        exact known

end Runs

end Program

def bracketing (s : Setting) (me : ClientId) : Composition s s where
  accessors := .refl s
  Known h e := h.Knows s.observers me e
  Rel h x p _ about := p.MakesUp s me h x about
  later longer known := known.mono longer
  done := Program.makesUp_pure
  bind := Program.makesUp_bind
  quiet := Program.makesUp_quiet
  forget := Program.makesUp_forget
  handed := Program.makesUp_handed
  accessor := Program.makesUp_accessor
  deferred := Program.makesUp_deferred
  run related := Program.makesUp_runProducer fun h script => related h _ script
  eager related := Program.makesUp_eagerly fun h script => related h _ script
  reset := Program.makesUp_reset

end Wiring.Registry
