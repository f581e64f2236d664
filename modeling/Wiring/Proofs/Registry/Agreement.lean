import Wiring.Proofs.Registry.Weaving
import Wiring.Proofs.Registry.Brackets

/-!
Plain and awaited reads agree. Apart from refusals no step that counts depends on the trail, and a
woven program leaves the trail as it was. So the two reads of a key, whose calls differ in what they
put on the trail, take the same steps that count and come to the same end, unless one of them is
refused for what its trail holds.
-/
namespace Wiring.Registry

def Action.counts : Action → Bool
  | beginRun .. | endRun .. | observe .. | note _ => true
  | _ => false

def History.counted (h : History) : History := h.filter fun p => p.action.counts

/-- One client has come to the same point on two ways. -/
structure Situation.Alike (w w' : Situation) : Prop where
  trail : w.trail = w'.trail
  store : w.store = w'.store
  counted : w.history.counted = w'.history.counted
  events : w.history.events = w'.history.events

def Action.refuses : (a : Action) → a.Response → Bool
  | enter .., .error _ => true
  | _, _ => false

/-- No call is refused, for a name that is being resolved or for depth, while `me` works alone. -/
def Program.Unrefused {α : Type} (me : ClientId) : Program α → Situation → Prop
  | done _, _ => True
  | step a next, w =>
      match advance me a w with
      | some (r, w') => a.refuses r = false ∧ (next r).Unrefused me w'
      | none => True

instance decidableUnrefused {α : Type} (me : ClientId) :
    (p : Program α) → (w : Situation) → Decidable (p.Unrefused me w)
  | .done _, _ => isTrue trivial
  | .step a next, w =>
      match h : Program.advance me a w with
      | some (r, w') =>
          have := decidableUnrefused me (next r) w'
          decidable_of_iff (a.refuses r = false ∧ (next r).Unrefused me w')
            (by simp only [Program.Unrefused, h])
      | none => isTrue (by simp only [Program.Unrefused, h])

theorem History.counted_cons {p : Performed} {h : History} (hp : p.action.counts = false) :
    History.counted (p :: h) = h.counted := by
  simp [History.counted, hp]

/-- What can be seen from outside is seen in the steps that count. -/
theorem History.events_counted (h : History) : h.counted.events = h.events := by
  unfold History.events History.counted
  rw [← List.filter_reverse, List.filterMap_filter]
  refine congrArg (List.filterMap · _) (funext fun p => ?_)
  obtain ⟨c, a, r⟩ := p
  cases a <;> rfl

theorem rel_bind {α α' β β' : Type} {R : α → α' → Prop} {S : β → β' → Prop} {x : Option α}
    {y : Option α'} {f : α → Option β} {g : α' → Option β'} (first : Option.Rel R x y)
    (rest : ∀ a b, x = some a → y = some b → R a b → Option.Rel S (f a) (g b)) :
    Option.Rel S (x.bind f) (y.bind g) := by
  cases first with
  | some related => exact rest _ _ rfl rfl related
  | none => exact .none

theorem rel_mono {α α' : Type} {R S : α → α' → Prop} {x : Option α} {y : Option α'}
    (related : Option.Rel R x y) (imp : ∀ a b, R a b → S a b) : Option.Rel S x y := by
  cases related with
  | some h => exact .some (imp _ _ h)
  | none => exact .none

namespace Program

variable {α β : Type} {me : ClientId}

theorem unrefused_bind {p : Program α} {f : α → Program β} {w : Situation} :
    (p >>= f).Unrefused me w ↔
      p.Unrefused me w ∧ ∀ a w', p.run me w = some (a, w') → (f a).Unrefused me w' := by
  induction p generalizing w with
  | done a =>
      constructor
      · intro h
        refine ⟨trivial, fun a' w' ran => ?_⟩
        cases ran
        exact h
      · exact fun h => h.2 a w rfl
  | step a next ih =>
      change ((step a next).bind f).Unrefused me w ↔ _
      simp only [Program.bind, Unrefused, run]
      cases advance me a w with
      | none => simp
      | some x =>
          simp only [and_assoc]
          exact and_congr_right fun _ => ih x.1

theorem Unrefused.step {a : Action} {f : a.Response → Program β} {w v : Situation} {r : a.Response}
    (h : (perform a >>= f).Unrefused me w) (hs : advance me a w = some (r, v)) :
    a.refuses r = false ∧ (f r).Unrefused me v := by
  change (Program.step a f).Unrefused me w at h
  simpa only [Unrefused, hs] using h

/-- Two runs have come to one value and one store by the same steps that count, and to the trails
given. -/
structure SameEnd (t t' : Trail) (x y : α × Situation) : Prop where
  value : x.1 = y.1
  left : x.2.trail = t
  right : y.2.trail = t'
  store : x.2.store = y.2.store
  counted : x.2.history.counted = y.2.history.counted

/-- From one store and under any two trails that refuse neither, both programs have to wait or both
come to the same end, and each leaves its trail as it was. -/
def Agrees (p q : Program α) : Prop :=
  ∀ me (w w' : Situation), w.store = w'.store → w.history.counted = w'.history.counted →
    p.Unrefused me w → q.Unrefused me w' →
      Option.Rel (SameEnd w.trail w'.trail) (p.run me w) (q.run me w')

theorem agrees_pure (a : α) : (pure a : Program α).Agrees (pure a) :=
  fun _ _ _ store counted _ _ => .some ⟨rfl, rfl, rfl, store, counted⟩

theorem Agrees.bind {p q : Program α} {f g : α → Program β} (first : p.Agrees q)
    (rest : ∀ a, (f a).Agrees (g a)) : (p >>= f).Agrees (q >>= g) := by
  intro me w w' store counted hp hq
  rw [unrefused_bind] at hp hq
  rw [run_bind, run_bind]
  refine rel_bind (first me w w' store counted hp.1 hq.1) fun x y hx hy same => ?_
  have agreed := rest x.1 me x.2 y.2 same.store same.counted (hp.2 _ _ hx)
    (same.value ▸ hq.2 _ _ hy)
  rw [← same.value]
  rwa [same.left, same.right] at agreed

/-- A step inside calls looks at the store alone. -/
theorem perform_inner {a : Action} (inner : a.IsInner) (me : ClientId) (t : Trail) (s : Store) :
    a.perform me t s = (a.perform me .empty s).map fun x => (x.1, t, x.2.2) := by
  cases a with
  | enter | leave => cases inner
  | endRun _ _ _ _ outcome => cases outcome <;> rfl
  | _ =>
      simp only [Action.perform]
      try split
      all_goals rfl

theorem agrees_perform {a : Action} (inner : a.IsInner) : (perform a).Agrees (perform a) := by
  intro me w w' store counted _ _
  have same := perform_inner inner me
  simp only [perform, run, advance]
  rw [same w.trail, same w'.trail, store]
  cases a.perform me .empty w'.store with
  | none => exact .none
  | some x =>
      refine .some ⟨rfl, rfl, rfl, rfl, ?_⟩
      simp only [History.counted, List.filter_cons] at counted ⊢
      rw [counted]

theorem advance_enter {key : Key} {w : Situation} (me : ClientId) (mode : Mode)
    (offer : Option ProducerId) (hr : w.trail.refusal? key.name = none) :
    ∃ v : Situation, v.trail = w.trail.enter key.name mode ∧ v.store = w.store ∧
      v.history.counted = w.history.counted ∧
        advance me (.enter mode key offer) w = some (.ok w.trail.task, v) := by
  refine ⟨⟨w.trail.enter key.name mode, w.store,
    ⟨me, .enter mode key offer, .ok w.trail.task⟩ :: w.history⟩,
    rfl, rfl, History.counted_cons rfl, ?_⟩
  simp only [advance, Action.perform, hr]

/-- The end of a call takes its name off the trail again. -/
theorem leave?_enter (t : Trail) (name : String) (mode : Mode) :
    (t.enter name mode).leave? name t.task mode = some t := by
  cases mode with
  | sync => simp [Trail.enter, Trail.leave?]
  | async => rfl

theorem advance_leave {mode : Mode} {key : Key} {w : Situation} {t : Trail} (me : ClientId)
    (result : Resolved) (ht : w.trail = t.enter key.name mode) :
    ∃ v : Situation, v.trail = t ∧ v.store = w.store ∧ v.history.counted = w.history.counted ∧
      advance me (.leave mode key t.task result) w = some ((), v) := by
  refine ⟨⟨t, w.store, ⟨me, .leave mode key t.task result, ()⟩ :: w.history⟩, rfl, rfl,
    History.counted_cons rfl, ?_⟩
  simp only [advance, Action.perform, ht, leave?_enter, Option.map_some]

/-- A call that is not refused runs its body inside. -/
theorem run_guarded {mode : Mode} {key : Key} {offer : Option ProducerId}
    {body : Program Resolved} {w : Situation} (hw : (guarded mode key offer body).Unrefused me w) :
    ∃ v : Situation, v.trail = w.trail.enter key.name mode ∧ v.store = w.store ∧
      v.history.counted = w.history.counted ∧ body.Unrefused me v ∧
        (guarded mode key offer body).run me w = (body.run me v).bind fun x =>
          (advance me (.leave mode key w.trail.task x.1) x.2).map fun y => (x.1, y.2) := by
  unfold guarded at hw ⊢
  cases hr : w.trail.refusal? key.name with
  | some e =>
      have refused : advance me (.enter mode key offer) w =
          some (.error e,
            { w with history := ⟨me, .enter mode key offer, .error e⟩ :: w.history }) := by
        simp only [advance, Action.perform, hr]
      cases (hw.step refused).1
  | none =>
      obtain ⟨v, trail, store, counted, entered⟩ :=
        advance_enter me mode offer hr
      refine ⟨v, trail, store, counted, (unrefused_bind.1 (hw.step entered).2).1, ?_⟩
      rw [run_perform, entered, Option.bind_some, run_bind]
      refine congrArg (Option.bind _) (funext fun x => ?_)
      rw [run_perform]
      cases advance me (.leave mode key w.trail.task x.1) x.2 <;> rfl

/-- Calls of two kinds agree if what they do inside agrees. -/
theorem Agrees.guarded {mode mode' : Mode} {key : Key} {offer offer' : Option ProducerId}
    {body body' : Program Resolved} (inside : body.Agrees body') :
    (guarded mode key offer body).Agrees (Program.guarded mode' key offer' body') := by
  intro me w w' store counted hw hw'
  obtain ⟨v, trail, same, still, free, ran⟩ := run_guarded hw
  obtain ⟨v', trail', same', still', free', ran'⟩ := run_guarded hw'
  have agreed := inside me v v' (same.trans (store.trans same'.symm))
    (still.trans (counted.trans still'.symm)) free free'
  rw [ran, ran']
  refine rel_bind agreed fun x y _ _ end' => ?_
  obtain ⟨z, left, stored, seen, leaves⟩ :=
    advance_leave me x.1 (end'.left.trans trail)
  obtain ⟨z', right, stored', seen', leaves'⟩ :=
    advance_leave me y.1 (end'.right.trans trail')
  rw [leaves, leaves']
  exact .some ⟨end'.value, left, right, stored.trans (end'.store.trans stored'.symm),
    seen.trans (end'.counted.trans seen'.symm)⟩

/-- What a woven program does depends on the trail where it is refused alone. -/
theorem Woven.agrees {p : Program α} (woven : p.Woven) : p.Agrees p := by
  induction woven with
  | value a => exact agrees_pure a
  | one inner => exact agrees_perform inner
  | bind _ _ first rest => exact first.bind rest
  | call _ inside => exact inside.guarded

end Program

section Runtimes

open Program

variable {setting : Setting} {runner : Runner}

/-- With no runtime at hand scripts go as they go on many threads. -/
def Runner.Idle (runner : Runner) : Prop :=
  ∀ {m : Mode} (script : Script m), runner .none script = runner .multiThread script

theorem Runner.Idle.request (idle : runner.Idle) {m : Mode} (request : Request m) :
    request.program setting runner .none = request.program setting runner .multiThread := by
  have run {slot : SlotId} {key : Key} {m : Mode} (producer : Producer m) :
      runProducer setting runner .none slot key producer =
        runProducer setting runner .multiThread slot key producer := by
    simp only [runProducer, produce, idle (producer.script _)]
  have sync : readSync setting runner .none = readSync setting runner .multiThread := by
    funext e
    simp only [readSync, run, waitFor]
  have async : readAsync setting runner .none = readAsync setting runner .multiThread := by
    funext e
    simp only [readAsync, run, sync]
  cases request with
  | get | getAsync => simp only [Request.program, Program.get, Program.getAsync, sync, async]
  | resolve | register =>
      simp only [Request.program, getOrRegister, registerSync, registerSyncGated, takeGateSync, run,
        sync]
  | resolveAsync | registerAsync =>
      simp only [Request.program, getOrRegisterAsync, registerAsync, registerAsyncGated, run, async]
  | _ => rfl

theorem idle_runScript (level : Nat) : Runner.Idle (runScript setting level) := by
  induction level with
  | zero => exact fun _ => rfl
  | succ level ih =>
      intro m script
      have sync (r : Request .sync) :
          r.program setting (runScript setting level) .none =
            r.program setting (runScript setting level) .multiThread := ih.request r
      have async (r : Request .async) :
          r.program setting (runScript setting level) .none =
            r.program setting (runScript setting level) .multiThread := ih.request r
      simp only [runScript, funext sync, funext async]

/-- A cell that is full is found full by whoever would claim it, so looking into it first makes no
difference. -/
theorem agrees_seen {slot : SlotId} {body : Program Resolved}
    (hb : body.Encloses Action.IsPublication) {f : Option Instance → Program Resolved}
    (seen : ∀ inst, f (some inst) = pure (.ok inst)) (unseen : f none = initOnce slot body) :
    (perform (.readCell slot) >>= f).Agrees (initOnce slot body) := by
  intro me w w' store counted hw hw'
  rw [run_perform]
  cases hc : (w.store.slot slot).cell with
  | full inst =>
      have full : (w'.store.slot slot).cell = .full inst := store ▸ hc
      unfold initOnce
      rw [run_perform]
      simp only [advance, Action.perform, hc, full, Option.bind_some, seen]
      exact .some ⟨rfl, rfl, rfl, store,
        (History.counted_cons rfl).trans (counted.trans (History.counted_cons rfl).symm)⟩
  | empty | filling client =>
      have looked : ∃ v : Situation, v.trail = w.trail ∧ v.store = w.store ∧
          v.history.counted = w.history.counted ∧
            advance me (.readCell slot) w = some (none, v) := by
        refine ⟨⟨w.trail, w.store, ⟨me, .readCell slot, none⟩ :: w.history⟩, rfl, rfl,
          History.counted_cons rfl, ?_⟩
        simp only [advance, Action.perform, hc]
      obtain ⟨v, trail, same, still, looked⟩ := looked
      have free := (hw.step looked).2
      rw [looked, ← trail, Option.bind_some]
      rw [unseen] at free ⊢
      have agrees : (initOnce slot body).Agrees (initOnce slot body) :=
        (encloses_initOnce hb).woven.agrees
      exact agrees me v w' (same.trans store) (still.trans counted) free hw'

theorem agrees_read (hr : runner.Encloses) (e : Entry) :
    (readSync setting runner .multiThread e).Agrees (readAsync setting runner .multiThread e) := by
  unfold readAsync
  cases he : e.resolution with
  | factory | singleton | lazySingleton => exact (encloses_readSync hr e).woven.agrees
  | singletonAsync inst =>
      simp only [readSync, he]
      exact agrees_pure _
  | factoryAsync p =>
      simp only [readSync, he, waitFor]
      exact (encloses_runProducer hr p).woven.agrees
  | lazySingletonAsync p =>
      simp only [readSync, he, waitFor]
      exact agrees_seen (encloses_runProducer hr p) (fun _ => rfl) rfl

/-- The two reads of a key agree where plain code may wait. -/
theorem agrees_get (hr : runner.Encloses) (key : Key) :
    (Program.get setting runner .multiThread key).Agrees
      (Program.getAsync setting runner .multiThread key) := by
  refine Agrees.guarded ((agrees_perform (a := .findEntry key) trivial).bind fun found => ?_)
  cases found with
  | some e => exact (agrees_read hr e).bind fun r => agrees_pure _
  | none => exact agrees_pure _

end Runtimes

/-- Plain and awaited reads agree. Whatever a registry holds and whatever producers do: where plain
code may wait, and no call is refused as circular or too deep in either run, `get` and `get_async`
both have to wait for another client or come back with the same reply, in the same store, by the
same runs and with the same events, with their trail as it was. -/
theorem plain_and_awaited_reads_agree (setting : Setting) (level : Nat) {r r' : Runtime}
    (waits : r ≠ .currentThread) (waits' : r' ≠ .currentThread) (key : Key) (me : ClientId)
    (w : Situation)
    (plain : ((Request.get key).program setting (runScript setting level) r).Unrefused me w)
    (awaited :
      ((Request.getAsync key).program setting (runScript setting level) r').Unrefused me w) :
    Option.Rel (fun x y => x.1 = y.1 ∧ x.2.trail = w.trail ∧ x.2.Alike y.2)
      (((Request.get key).program setting (runScript setting level) r).run me w)
      (((Request.getAsync key).program setting (runScript setting level) r').run me w) := by
  have many {r : Runtime} (hr : r ≠ .currentThread) {m : Mode} (request : Request m) :
      request.program setting (runScript setting level) r =
        request.program setting (runScript setting level) .multiThread := by
    cases r with
    | none => exact Runner.Idle.request (idle_runScript level) request
    | currentThread => exact absurd rfl hr
    | multiThread => rfl
  rw [many waits] at plain ⊢
  rw [many waits'] at awaited ⊢
  have agreed := (agrees_get (Program.encloses_runScript level) key).bind
    (fun result => Program.agrees_pure (Reply.resolved result)) me w w rfl rfl plain awaited
  refine rel_mono agreed fun x y same => ⟨same.value, same.left, ?_⟩
  refine ⟨same.left.trans same.right.symm, same.store, same.counted, ?_⟩
  rw [← History.events_counted, same.counted, History.events_counted]

def feedKey : Key := ⟨"app::Feed", "Feed"⟩

def tickKey : Key := ⟨"app::Tick", "Tick"⟩

def feedSetting : Setting := ⟨1, fun _ => ⟨.factory, fun _ _ => .finish (.ok ⟨none, []⟩)⟩⟩

def feedProducer : Producer .async :=
  ⟨.given 0, fun _ => .call (.get tickKey) fun _ => .finish (.ok ⟨none, []⟩)⟩

def tickProducer : Producer .sync := ⟨.given 1, fun _ => .finish (.ok ⟨none, []⟩)⟩

def feedSituation : Situation where
  trail := .empty
  store :=
    { Store.empty with
      slots :=
        [⟨none, some ⟨feedKey, .lazySingletonAsync, 0, .lazySingletonAsync feedProducer⟩, .empty⟩,
          ⟨none, some ⟨tickKey, .factory, 1, .factory tickProducer⟩, .empty⟩]
      index := [(feedKey, 0), (tickKey, 1)] }
  history := []

theorem feed_is_read_in_both_ways :
    ((Request.get feedKey).fromOutside feedSetting .none).Unrefused 0 feedSituation ∧
      ((Request.getAsync feedKey).fromOutside feedSetting .multiThread).Unrefused 0
        feedSituation ∧
      (((Request.get feedKey).fromOutside feedSetting .none).run 0 feedSituation).isSome ∧
      Option.Rel (fun x y => x.1 = y.1 ∧ x.2.trail = feedSituation.trail ∧ x.2.Alike y.2)
        (((Request.get feedKey).fromOutside feedSetting .none).run 0 feedSituation)
        (((Request.getAsync feedKey).fromOutside feedSetting .multiThread).run 0
          feedSituation) := by
  have plain : ((Request.get feedKey).fromOutside feedSetting .none).Unrefused 0
      feedSituation := by decide +kernel
  have awaited : ((Request.getAsync feedKey).fromOutside feedSetting .multiThread).Unrefused 0
      feedSituation := by decide +kernel
  exact ⟨plain, awaited, by decide +kernel,
    plain_and_awaited_reads_agree feedSetting maxDepth (by decide) (by decide) feedKey 0 _ plain
      awaited⟩

end Wiring.Registry
