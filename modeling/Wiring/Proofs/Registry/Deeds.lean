import Wiring.Proofs.Registry.Record
import Mathlib.Data.List.Forall2

/-!
The deeds of calls. A history shows for every call under way at which moments it took a step of its
own: where it looked its slot up, which run of a producer it ended and with what result. The stage
that a call has come to follows from its deeds.
-/
namespace Wiring.Registry

namespace History

/-- The calls of client `me` that are under way, the innermost first, each by the moments of its own
steps, the latest first. A moment is the history up to and with the step, and the first one of a
call is its entry. -/
def deeds (me : ClientId) : History → List (List History)
  | [] => []
  | ⟨c, .enter mode key offer, .ok task⟩ :: h =>
      if c = me then [⟨c, .enter mode key offer, .ok task⟩ :: h] :: deeds me h else deeds me h
  | ⟨c, .leave .., _⟩ :: h => if c = me then (deeds me h).tail else deeds me h
  | p :: h => if p.client = me then (deeds me h).modifyHead ((p :: h) :: ·) else deeds me h

def resets : History → Nat
  | [] => 0
  | ⟨_, .clearEntries, _⟩ :: h => resets h + 1
  | _ :: h => resets h

def looks? : History → Option (SlotId × Nat)
  | ⟨_, .claimSlot _, slot⟩ :: h => some (slot, resets h)
  | ⟨_, .findEntry _, some e⟩ :: h => some (e.slot, resets h)
  | _ => none

def ran? : History → Option (ProducerId × Resolved)
  | ⟨_, .endRun _ _ p _ _, r⟩ :: _ => some (p, r)
  | _ => none

end History

theorem History.resets_cons (p : Performed) (h : History) :
    h.resets ≤ History.resets (p :: h) ∧
      (History.resets (p :: h) = h.resets ↔ p.action ≠ .clearEntries) := by
  obtain ⟨c, a, r⟩ := p
  cases a with
  | clearEntries =>
      refine ⟨Nat.le_succ _, ?_⟩
      simp [History.resets]
  | _ => exact ⟨Nat.le_refl _, iff_of_true rfl nofun⟩

theorem History.resets_mono {h h' : History} (hs : h <:+ h') : h.resets ≤ h'.resets := by
  obtain ⟨more, rfl⟩ := hs
  induction more with
  | nil => exact Nat.le_refl _
  | cons p more ih => exact Nat.le_trans ih (History.resets_cons p _).1

/-- Where a call looked its slot up, and in which generation of entries. What it finds later is
found by its producer. -/
def lookup? (own : List History) : Option (SlotId × Nat) := (own.filterMap History.looks?).getLast?

def runs (own : List History) : List (ProducerId × Resolved) := own.filterMap History.ran?

/-- A call of client `c` has come to its stage by the moments given. -/
inductive Call.Comes (terms : Terms) (c : ClientId) : List History → Call → Prop
  | entered {mode : Mode} {key : Key} {offer : Option ProducerId} {task : List String}
      {h : History} :
      Comes terms c [⟨c, .enter mode key offer, .ok task⟩ :: h] ⟨key, mode, offer, .entered⟩
  | next {own : List History} {call : Call} {a : Action} {r : a.Response} {stage : Stage}
      {h : History} (before : Comes terms c own call)
      (step : call.stage.Next terms call.key call.offer a r stage) :
      Comes terms c ((⟨c, a, r⟩ :: h) :: own) { call with stage }
  | aside {own : List History} {call : Call} {a : Action} {r : a.Response} {h : History}
      (before : Comes terms c own call) (running : call.stage.run?.isSome) (ha : a.IsAside) :
      Comes terms c ((⟨c, a, r⟩ :: h) :: own) call
  | refused {own : List History} {call : Call} {mode : Mode} {key : Key}
      {offer : Option ProducerId} {e : ResolveError} {h : History}
      (before : Comes terms c own call) (running : call.stage.run?.isSome) :
      Comes terms c ((⟨c, .enter mode key offer, .error e⟩ :: h) :: own) call

section Step

variable {terms : Terms} {key : Key} {offer : Option ProducerId} {stage stage' : Stage} {a : Action}
  {r : a.Response} {c : ClientId} {h : History}

theorem Stage.Next.deeds (n : stage.Next terms key offer a r stage') (me : ClientId) :
    History.deeds me (⟨c, a, r⟩ :: h) =
      if c = me then (h.deeds me).modifyHead ((⟨c, a, r⟩ :: h) :: ·) else h.deeds me := by
  cases n <;> rfl

theorem Action.IsAside.deeds (ha : a.IsAside) (me : ClientId) :
    History.deeds me (⟨c, a, r⟩ :: h) =
      if c = me then (h.deeds me).modifyHead ((⟨c, a, r⟩ :: h) :: ·) else h.deeds me := by
  cases a with
  | newProducer | findEntry | countEntries | clearEntries | readCell | note | pause | yield
  | observe => rfl
  | _ => cases ha

end Step

/-- Every call under way has come to its stage by its deeds. -/
def Shows (terms : Terms) (_ : List Key) (calls : ClientId → List Call) (_ : Store) (h : History) :
    Prop :=
  ∀ c, List.Forall₂ (Call.Comes terms c) (h.deeds c) (calls c)

/-- Steps with which a client that is in the middle of a run goes no further in the call that
runs. -/
def Performed.Passes : Performed → Prop
  | ⟨_, .enter .., .error _⟩ => True
  | p => p.action.IsAside

theorem Call.Comes.passes {terms : Terms} {p : Performed} {h : History} {own : List History}
    {call : Call} (before : call.Comes terms p.client own) (running : call.stage.run?.isSome)
    (passes : p.Passes) : call.Comes terms p.client ((p :: h) :: own) := by
  obtain ⟨c, a, r⟩ := p
  cases a with
  | enter =>
      cases r with
      | ok => cases passes
      | error => exact .refused before running
  | _ => exact .aside before running passes

section Together

variable {terms : Terms} {keys : List Key} {calls : ClientId → List Call} {s : Store}
  {c : ClientId} {a : Action} {r : a.Response} {calls' : List Call} {keys' : List Key} {s' : Store}
  {h : History} {R : ClientId → List History → Call → Prop}

/-- What relates every call under way to its deeds does so after a step, if it does for the call
that takes the step. -/
theorem Taken.deeds_kept (taken : Taken terms keys calls s c a r calls' keys' s')
    (old : ∀ me, List.Forall₂ (R me) (h.deeds me) (calls me))
    (entered : ∀ call : Call, call.Comes terms c [⟨c, a, r⟩ :: h] → call.stage = .entered →
      R c [⟨c, a, r⟩ :: h] call)
    (stepped : ∀ (own : List History) (call : Call) rest stage, calls c = call :: rest →
      R c own call → call.stage.Next terms call.key call.offer a r stage →
        R c ((⟨c, a, r⟩ :: h) :: own) { call with stage })
    (passed : ∀ (own : List History) (call : Call), R c own call → call.stage.run?.isSome →
      Performed.Passes ⟨c, a, r⟩ → R c ((⟨c, a, r⟩ :: h) :: own) call) (me : ClientId) :
    List.Forall₂ (R me) (History.deeds me (⟨c, a, r⟩ :: h))
      (Function.update calls c calls' me) := by
  have move := taken.move
  have now := old me
  by_cases hc : c = me
  · subst hc
    rw [Function.update_self]
    generalize calls c = cs at move now stepped
    cases move with
    | own n =>
        rw [n.deeds, if_pos rfl]
        generalize h.deeds c = ds at now
        cases now with
        | cons first rest => exact .cons (stepped _ _ _ _ rfl first n) rest
    | enter =>
        simp only [History.deeds, if_true]
        exact .cons (entered _ .entered rfl) now
    | refuse hc =>
        simp only [History.deeds, if_true]
        generalize h.deeds c = ds at now
        cases now with
        | nil => exact .nil
        | cons first rest => exact .cons (passed _ _ first hc trivial) rest
    | leave =>
        simp only [History.deeds, if_true]
        generalize h.deeds c = ds at now
        cases now with
        | cons first rest => exact rest
    | aside hc ha =>
        rw [ha.deeds, if_pos rfl]
        generalize h.deeds c = ds at now
        cases now with
        | nil => exact .nil
        | cons first rest =>
            refine .cons (passed _ _ first hc ?_) rest
            cases a with
            | enter => cases ha
            | _ => exact ha
  · rw [Function.update_of_ne (Ne.symm hc)]
    generalize calls c = cs at move
    cases move with
    | own n => rwa [n.deeds, if_neg hc]
    | enter | leave | refuse => simpa only [History.deeds, if_neg hc] using now
    | aside _ ha => rwa [ha.deeds, if_neg hc]

end Together

/-- The slot that a step works on. Cells are read in passing too, to tell the state of an entry. -/
def Action.slot? : Action → Option SlotId
  | .readEntry slot | .publish slot _ | .tryGate slot | .takeGate slot | .freeGate slot
  | .claimCell slot | .fillCell slot _ | .freeCell slot | .beginRun slot .. | .endRun slot .. =>
      some slot
  | _ => none

theorem Stage.Next.slot {terms : Terms} {key : Key} {offer : Option ProducerId}
    {stage stage' : Stage} {a : Action} {r : a.Response} {slot : SlotId}
    (n : stage.Next terms key offer a r stage') (ha : a.slot? = some slot) :
    stage.slot? = some slot := by
  cases n with
  | find | absent | claim | see | unseen | tell | observe => cases ha
  | _ =>
      cases ha
      rfl

/-- A step that works on a slot is one of the innermost call. -/
theorem Taken.own {terms : Terms} {keys : List Key} {calls : ClientId → List Call} {s : Store}
    {c : ClientId} {a : Action} {r : a.Response} {calls' : List Call} {keys' : List Key}
    {s' : Store} {slot : SlotId} (taken : Taken terms keys calls s c a r calls' keys' s')
    (ha : a.slot? = some slot) :
    ∃ call rest stage, calls c = call :: rest ∧ calls' = { call with stage } :: rest ∧
      call.stage.Next terms call.key call.offer a r stage := by
  have move := taken.move
  generalize calls c = cs at move
  cases move with
  | @own call rest _ _ stage n => exact ⟨call, rest, stage, rfl, rfl, n⟩
  | enter | refuse | leave => cases ha
  | aside _ aside =>
      cases a with
      | newProducer | findEntry | countEntries | clearEntries | readCell | note | pause | yield
      | observe => cases ha
      | _ => cases aside

theorem shows_kept (terms : Terms) : Kept terms (Shows terms) := by
  intro keys calls s c a r calls' keys' s' h taken old
  exact taken.deeds_kept old (fun _ comes _ => comes) (fun _ _ _ _ _ before n => .next before n)
    fun _ _ before running passes => before.passes running passes

/-- A call that is under way has begun now, or it was under way and may have done something now. -/
theorem History.deeds_cases {p : Performed} {h : History} {me : ClientId} {own : List History}
    (ho : own ∈ History.deeds me (p :: h)) :
    own ∈ h.deeds me ∨ own = [p :: h] ∨ ∃ before ∈ h.deeds me, own = (p :: h) :: before := by
  have added (ho : own ∈ (h.deeds me).modifyHead ((p :: h) :: ·)) :
      own ∈ h.deeds me ∨ own = [p :: h] ∨ ∃ before ∈ h.deeds me, own = (p :: h) :: before := by
    generalize h.deeds me = ds at ho
    cases ds with
    | nil => cases ho
    | cons first rest =>
        cases ho with
        | head => exact .inr (.inr ⟨first, List.mem_cons_self, rfl⟩)
        | tail _ ho => exact .inl (List.mem_cons_of_mem _ ho)
  obtain ⟨c, a, r⟩ := p
  cases a with
  | enter mode key offer =>
      cases r with
      | ok task =>
          simp only [History.deeds] at ho
          split at ho
          · cases ho with
            | head => exact .inr (.inl rfl)
            | tail _ ho => exact .inl ho
          · exact .inl ho
      | error e =>
          simp only [History.deeds] at ho
          split at ho
          · exact added ho
          · exact .inl ho
  | leave =>
      simp only [History.deeds] at ho
      split at ho
      · exact .inl (List.mem_of_mem_tail ho)
      · exact .inl ho
  | _ =>
      simp only [History.deeds] at ho
      split at ho
      · exact added ho
      · exact .inl ho

/-- The moments of a call lie in the history. -/
theorem History.suffix_of_deeds {h : History} {me : ClientId} {own : List History}
    (ho : own ∈ h.deeds me) {x : History} (hx : x ∈ own) : x <:+ h := by
  induction h generalizing own with
  | nil => cases ho
  | cons p h ih =>
      obtain there | rfl | ⟨before, there, rfl⟩ := History.deeds_cases ho
      · exact (ih there hx).trans (List.suffix_cons p h)
      · cases List.mem_singleton.1 hx
        exact List.suffix_refl _
      · cases hx with
        | head => exact List.suffix_refl _
        | tail _ hx => exact (ih there hx).trans (List.suffix_cons p h)

namespace Call.Comes

variable {terms : Terms} {c : ClientId} {own : List History} {call : Call}

/-- The first deed of a call is its entry. -/
theorem entry (comes : call.Comes terms c own) :
    ∃ task h, own.getLast? = some (⟨c, .enter call.mode call.key call.offer, .ok task⟩ :: h) := by
  induction comes with
  | entered => exact ⟨_, _, rfl⟩
  | next _ _ ih | aside _ _ _ ih | refused _ _ ih =>
      obtain ⟨task, h, last⟩ := ih
      exact ⟨task, h, by simp [List.getLast?_cons, last]⟩

theorem ne_nil (comes : call.Comes terms c own) : own ≠ [] := by
  obtain ⟨task, h, last⟩ := comes.entry
  rintro rfl
  cases last

theorem fits (comes : call.Comes terms c own) : call.Fits := by
  induction comes with
  | entered => trivial
  | next _ step ih => exact step.fits ih
  | aside _ _ _ ih | refused _ _ ih => exact ih

end Call.Comes

section Lookup

variable {x : History} {own : List History}

/-- What has been looked up stays so. -/
theorem lookup?_cons : lookup? (x :: own) = (lookup? own).or x.looks? := by
  unfold lookup?
  cases hx : x.looks? with
  | none => simp [hx]
  | some found =>
      cases hl : own.filterMap History.looks? with
      | nil => simp [hx, hl]
      | cons y ys => simp [hx, hl, List.getLast?_cons]

end Lookup

/-- A call that has gone beyond its entry knows the slot that it looked up, and no other. -/
structure Call.Looked (own : List History) (call : Call) : Prop where
  entered : call.stage = .entered → lookup? own = none
  slot : ∀ id, call.stage.slot? = some id → ∃ n, lookup? own = some (id, n)

theorem Stage.slot?_of_run? {stage : Stage} (running : stage.run?.isSome) :
    stage.slot?.isSome := by
  cases stage with
  | trying | making => rfl
  | _ => cases running

/-- A call in the middle of a run has looked its slot up before. -/
theorem Call.Looked.running {call : Call} {own : List History} (looked : call.Looked own)
    (running : call.stage.run?.isSome) (x : History) : lookup? (x :: own) = lookup? own := by
  obtain ⟨id, hs⟩ := Option.isSome_iff_exists.1 (Stage.slot?_of_run? running)
  obtain ⟨n, found⟩ := looked.slot id hs
  rw [lookup?_cons, found]
  rfl

theorem Call.Comes.looked {terms : Terms} {c : ClientId} {own : List History} {call : Call}
    (comes : call.Comes terms c own) : call.Looked own := by
  induction comes with
  | entered => exact ⟨fun _ => rfl, fun id h => by cases h⟩
  | @next own call a r stage h before step ih =>
      obtain ⟨key, mode, offer, old⟩ := call
      have first := ih.entered
      have known (id : SlotId) (hs : old.slot? = some id) :
          ∃ n, lookup? ((⟨c, a, r⟩ :: h) :: own) = some (id, n) := by
        obtain ⟨n, found⟩ := ih.slot id hs
        exact ⟨n, by rw [lookup?_cons, found]; rfl⟩
      simp only at step first known
      cases step with
      | find | claim =>
          refine ⟨nofun, fun id hs => ?_⟩
          rw [lookup?_cons, first rfl]
          cases hs
          exact ⟨_, rfl⟩
      | absent | freeTried | unfill => exact ⟨nofun, fun id hs => by cases hs⟩
      | observe =>
          refine ⟨fun hs => ?_, known⟩
          rw [lookup?_cons, first hs]
          rfl
      | hit suits | pass suits | publish suits | publishMade suits =>
          refine ⟨nofun, fun id hs => known id ?_⟩
          cases hs
          rw [suits.slot]
          rfl
      | _ => exact ⟨nofun, fun id hs => known id (by cases hs; rfl)⟩
  | @aside own call _ _ _ _ running _ ih | @refused own call _ _ _ _ _ _ running ih =>
      refine ⟨fun he => by simp [he, Stage.run?] at running, fun id hs => ?_⟩
      rw [ih.running running]
      exact ih.slot id hs

/-- The runs that a call has ended, at the stage it has come to: one at most, of the producer that
was handed to it or of its entry. -/
def Call.Ran (call : Call) (runs : List (ProducerId × Resolved)) : Prop :=
  match call.stage with
  | .tried _ r => ∃ p, call.offer = some p ∧ runs = [(p, r)]
  | .announcing e _ | .reading e =>
      runs = [] ∨ ∃ p inst, call.offer = some p ∧ e.resolution.instance? = some inst ∧
        runs = [(p, .ok inst)]
  | .made e r => ∃ p, e.resolution.producer? = some p ∧ runs = [(p, r)]
  | .settled e inst => runs = [] ∨ ∃ p, e.resolution.producer? = some p ∧ runs = [(p, .ok inst)]
  | .failed error =>
      runs = [] ∧ error = .notRegistered call.key.name ∨ ∃ p, runs = [(p, .error error)]
  | _ => runs = []

/-- An entry that has a producer holds no instance that a run could have made before. -/
theorem Call.Ran.idle {call : Call} {ended : List (ProducerId × Resolved)} {e : Entry}
    (ran : call.Ran ended) (hs : call.stage = .reading e)
    (none : e.resolution.instance? = none) : ended = [] := by
  rw [Call.Ran, hs] at ran
  cases ran with
  | inl idle => exact idle
  | inr stored =>
      obtain ⟨_, _, -, stored, -⟩ := stored
      cases none.symm.trans stored

theorem runs_cons {x : History} {own : List History} :
    runs (x :: own) = x.ran?.toList ++ runs own := by
  unfold runs
  cases hx : x.ran? <;> simp [hx]

theorem Stage.Next.ran {terms : Terms} {call : Call} {a : Action} {r : a.Response} {stage : Stage}
    {c : ClientId} {h : History} {ended : List (ProducerId × Resolved)}
    (n : call.stage.Next terms call.key call.offer a r stage) (fits : call.Fits)
    (old : call.Ran ended) :
    Call.Ran { call with stage } ((History.ran? (⟨c, a, r⟩ :: h)).toList ++ ended) := by
  obtain ⟨key, mode, offer, before⟩ := call
  have idle {e : Entry} := old.idle (e := e)
  cases n with
  | tried | made =>
      cases old
      exact ⟨_, fits, rfl⟩
  | publishMade _ hi =>
      obtain ⟨p, hp, rfl⟩ := old
      exact .inr ⟨p, _, hp, hi, rfl⟩
  | freeTried | unfill =>
      obtain ⟨p, -, rfl⟩ := old
      exact .inr ⟨p, rfl⟩
  | fill =>
      obtain ⟨p, hp, rfl⟩ := old
      exact .inr ⟨p, hp, rfl⟩
  | see hl | share hl => exact .inl (idle rfl (Resolution.instance?_of_lazy hl))
  | claimCell hl => exact idle rfl (Resolution.instance?_of_lazy hl)
  | makeFresh _ hp => exact idle rfl (Resolution.instance?_of_producer hp)
  | absent => exact .inl ⟨old, rfl⟩
  | find | hit | publish | freePassed => exact .inl old
  | _ => exact old

theorem Call.Comes.ran {terms : Terms} {c : ClientId} {own : List History} {call : Call}
    (comes : call.Comes terms c own) : call.Ran (runs own) := by
  induction comes with
  | entered => rfl
  | next before step ih =>
      rw [runs_cons]
      exact step.ran before.fits ih
  | @aside _ _ a r _ _ _ ha ih =>
      rw [runs_cons]
      cases a with
      | endRun => cases ha
      | _ => exact ih
  | refused _ _ ih =>
      rw [runs_cons]
      exact ih

/-- A call that has failed without a run has found no slot. -/
theorem Call.Comes.lost {terms : Terms} {c : ClientId} {own : List History} {call : Call}
    (comes : call.Comes terms c own) {error : ResolveError} (hs : call.stage = .failed error)
    (idle : runs own = []) : lookup? own = none := by
  induction comes with
  | entered => cases hs
  | @next own call a r stage h before step ih =>
      obtain ⟨key, mode, offer, old⟩ := call
      have ran := before.ran
      have entered := before.looked.entered
      rw [runs_cons] at idle
      cases step with
      | absent =>
          rw [lookup?_cons, entered rfl]
          rfl
      | freeTried | unfill =>
          obtain ⟨p, -, ran⟩ := ran
          simp [ran] at idle
      | observe =>
          rw [lookup?_cons, ih hs idle]
          rfl
      | _ => cases hs
  | aside _ running | refused _ running => simp [hs, Stage.run?] at running

/-- An error that a call comes back with is one of the run that it has ended, or it is told that
its key has no entry or that its thread may not wait. -/
theorem Call.Comes.error {terms : Terms} {c : ClientId} {own : List History} {call : Call}
    (comes : call.Comes terms c own) {error : ResolveError}
    (ends : call.stage.Ends call.key (.error error)) :
    lookup? own = none ∧ error = .notRegistered call.key.name ∨
      error = .blockingInAsyncContext call.key.name ∨ ∃ p, runs own = [(p, .error error)] := by
  have ran := comes.ran
  have lost (hs : call.stage = .failed error) := comes.lost hs
  obtain ⟨key, mode, offer, stage⟩ := call
  cases ends with
  | spoiled =>
      obtain ⟨p, -, ran⟩ := ran
      exact .inr (.inr ⟨p, ran⟩)
  | failed =>
      cases ran with
      | inl absent => exact .inl ⟨lost rfl absent.1, absent.2⟩
      | inr ran => exact .inr (.inr ran)
  | held | awaited => exact .inr (.inl rfl)

end Wiring.Registry
