import Wiring.Registry.Session

/-!
The conduct of clients. A call under way has come to a stage, which says what it holds and what it
knows; `Stage.Next` and `Move` list every step that a call and a client may take from there, with
the responses that the step may have. Invariants of the registry are about these alone.
-/
namespace Wiring.Registry

namespace Resolution

def policy : Resolution → Policy
  | .factory _ => .factory
  | .singleton _ => .singleton
  | .lazySingleton _ => .lazySingleton
  | .factoryAsync _ => .factoryAsync
  | .singletonAsync _ => .singletonAsync
  | .lazySingletonAsync _ => .lazySingletonAsync

def instance? : Resolution → Option Instance
  | .singleton inst | .singletonAsync inst => some inst
  | .factory _ | .lazySingleton _ | .factoryAsync _ | .lazySingletonAsync _ => none

def maker? : Resolution → Option ((m : Mode) × Producer m)
  | .factory p | .lazySingleton p => some ⟨.sync, p⟩
  | .factoryAsync p | .lazySingletonAsync p => some ⟨.async, p⟩
  | .singleton _ | .singletonAsync _ => none

def producer? (r : Resolution) : Option ProducerId := r.maker?.map fun p => p.2.id

def isLazy : Resolution → Bool
  | .lazySingleton _ | .lazySingletonAsync _ => true
  | .factory _ | .singleton _ | .factoryAsync _ | .singletonAsync _ => false

theorem instance?_of_lazy {r : Resolution} (h : r.isLazy) : r.instance? = none := by
  cases r <;> simp_all [isLazy, instance?]

theorem instance?_of_producer {r : Resolution} {p : ProducerId} (h : r.producer? = some p) :
    r.instance? = none := by
  cases r <;> simp_all [producer?, maker?, instance?]

end Resolution

/-- An entry holds what its policy says, and an instance of its own key if it holds one. -/
structure Entry.Sound (e : Entry) : Prop where
  policy : e.resolution.policy = e.policy
  key : ∀ inst, e.resolution.instance? = some inst → inst.key = e.key

/-- What clients of one registry may rely on. -/
structure Terms where
  observers : Nat
  /-- The only client that makes calls, where there is but one. -/
  alone : Option ClientId
  /-- Whether calls are made on threads that drive a runtime alone. -/
  driven : Prop
  entry : Entry → Prop
  inst : Instance → Prop
  /-- What a client asks for while it resolves the given keys, the innermost first. -/
  asks : List Key → Key → Prop
  /-- What calls come back with. -/
  gives : Key → Resolved → Prop
  /-- What calls are refused for. -/
  refuses : ResolveError → Prop

/-- An entry that may stand in a slot of a key. -/
structure Entry.Suits (terms : Terms) (key : Key) (slot : SlotId) (e : Entry) : Prop where
  key : e.key = key
  slot : e.slot = slot
  sound : e.Sound
  entry : terms.entry e

/-- How far a call that has entered has come. -/
inductive Stage
  | entered
  | claimed (slot : SlotId)
  /-- The slot had no entry, and the gate is to be taken. -/
  | missed (slot : SlotId)
  | gated (slot : SlotId)
  /-- The gate is held, and there is still no entry. -/
  | vacant (slot : SlotId)
  /-- An eager producer runs, the gate being held. -/
  | trying (slot : SlotId) (producer : ProducerId) (run : Nat)
  | tried (slot : SlotId) (result : Resolved)
  /-- The entry is published, and the first `told` observers know of it. -/
  | announcing (entry : Entry) (told : Nat)
  /-- The gate is held, but another call was first. -/
  | passed (entry : Entry)
  | reading (entry : Entry)
  /-- The cell of a lazy entry is held. -/
  | filling (entry : Entry)
  | making (entry : Entry) (producer : ProducerId) (run : Nat)
  | made (entry : Entry) (result : Resolved)
  | settled (entry : Entry) (inst : Instance)
  /-- Nothing is there to be resolved, or the producer that was run has failed. -/
  | failed (error : ResolveError)

namespace Stage

def gate? : Stage → Option SlotId
  | gated slot | vacant slot | trying slot _ _ | tried slot _ => some slot
  | announcing e _ | passed e => some e.slot
  | _ => none

def cell? : Stage → Option SlotId
  | filling e => some e.slot
  | making e _ _ | made e _ => if e.resolution.isLazy then some e.slot else none
  | _ => none

def entry? : Stage → Option Entry
  | announcing e _ | passed e | reading e | filling e | making e _ _ | made e _ | settled e _ =>
      some e
  | _ => none

def vacancy? : Stage → Option SlotId
  | vacant slot | trying slot _ _ | tried slot _ => some slot
  | _ => none

def slot? : Stage → Option SlotId
  | claimed slot | missed slot => some slot
  | s => s.gate? <|> s.entry?.map Entry.slot

def run? : Stage → Option (ProducerId × Nat)
  | trying _ p run | making _ p run => some (p, run)
  | _ => none

def cached? : Stage → Option (Entry × Instance)
  | settled e inst => some (e, inst)
  | _ => none

end Stage

/-- A resolution of `key` under way, with the producer that was handed to it. -/
structure Call where
  key : Key
  mode : Mode
  offer : Option ProducerId
  stage : Stage

/-- What a client has on its trail while it makes the given calls, the innermost first. -/
def trailOf : List Call → Trail
  | [] => .empty
  | c :: calls => (trailOf calls).enter c.key.name c.mode

/-- Whether a client that makes these calls may make a further one: outside all calls, or in a
run of a producer. -/
def Callable : List Call → Prop
  | [] => True
  | c :: _ => c.stage.run?.isSome

/-- How calls nest: each was made while the next ran a producer, and was not refused. -/
def Nested : List Call → Prop
  | [] => True
  | c :: calls =>
      Callable calls ∧ (trailOf calls).refusal? c.key.name = none ∧ Nested calls

theorem refusal?_eq_none_iff {t : Trail} {name : String} :
    t.refusal? name = none ↔ name ∉ t.names ∧ t.names.length < maxDepth := by
  unfold Trail.refusal?
  split
  · next h => simp [h]
  · next h => split <;> simp_all

theorem Trail.refusal?_of_mem {t : Trail} {name : String} (h : name ∈ t.names) :
    t.refusal? name = some (.circular (t.names ++ [name])) := by
  simp [Trail.refusal?, h]

/-- An entry adds its name and loses none, whatever it does with the two parts of the trail. -/
theorem Trail.mem_names_enter {t : Trail} {name x : String} {mode : Mode} :
    x ∈ (t.enter name mode).names ↔ x ∈ t.names ∨ x = name := by
  cases mode with
  | sync => simp [Trail.enter, Trail.names, or_assoc]
  | async =>
      simp only [Trail.enter, Trail.names, List.mem_append, List.mem_singleton]
      constructor
      · intro h
        cases h with
        | inl h => exact h
        | inr h => exact .inl (.inr h)
      · exact .inl

theorem Trail.length_names_enter (t : Trail) (name : String) (mode : Mode) :
    t.names.length < (t.enter name mode).names.length := by
  cases mode with
  | sync | async =>
      simp only [Trail.enter, Trail.names, List.length_append, List.length_singleton]
      omega

theorem mem_names_trailOf {calls : List Call} {name : String} :
    name ∈ (trailOf calls).names ↔ ∃ c ∈ calls, c.key.name = name := by
  induction calls with
  | nil => simp [trailOf, Trail.names, Trail.empty]
  | cons c calls ih =>
      simp only [trailOf, Trail.mem_names_enter, ih, List.mem_cons, exists_eq_or_imp]
      rw [or_comm, eq_comm]

theorem length_le_names (calls : List Call) :
    calls.length ≤ (trailOf calls).names.length := by
  induction calls with
  | nil => exact Nat.le_refl 0
  | cons c calls ih =>
      have longer := Trail.length_names_enter (trailOf calls) c.key.name c.mode
      rw [trailOf, List.length_cons]
      omega

theorem Nested.length_le {calls : List Call} (h : Nested calls) : calls.length ≤ maxDepth := by
  cases calls with
  | nil => simp
  | cons c calls =>
      have hn := (refusal?_eq_none_iff.1 h.2.1).2
      have hl := length_le_names calls
      simp only [List.length_cons]
      omega

theorem Nested.pairwise {calls : List Call} (h : Nested calls) :
    calls.Pairwise fun c d => c.key.name ≠ d.key.name := by
  induction calls with
  | nil => exact .nil
  | cons c calls ih =>
      refine List.pairwise_cons.2 ⟨fun d hd he => ?_, ih h.2.2⟩
      exact (refusal?_eq_none_iff.1 h.2.1).1 (mem_names_trailOf.2 ⟨d, hd, he.symm⟩)

def Notice.registered? : Notice → Option (Key × Policy)
  | .registered key policy => some (key, policy)
  | _ => none

/-- Steps that are no part of a resolution. -/
def Action.IsAside : Action → Prop
  | .newProducer | .findEntry _ | .countEntries | .clearEntries | .readCell _ | .note _ | .pause
  | .yield => True
  | .observe _ notice => notice.registered? = none
  | _ => False

def Made (key : Key) (producer : ProducerId) (run : Nat) (outcome : Outcome) (r : Resolved) :
    Prop :=
  ∃ serial, r = outcome.map fun payload => ⟨serial, key, producer, run, payload⟩

theorem Made.key {key : Key} {p : ProducerId} {run : Nat} {o : Outcome} {inst : Instance}
    (h : Made key p run o (.ok inst)) : inst.key = key := by
  obtain ⟨serial, h⟩ := h
  cases o with
  | ok payload => cases h; rfl
  | error e => cases h

namespace Stage

variable (terms : Terms) (key : Key) (offer : Option ProducerId)

/-- The steps of a call for `key` that take it from one stage to another. -/
inductive Next : Stage → (a : Action) → a.Response → Stage → Prop
  | find {e : Entry} (h : e.Suits terms key e.slot) :
      Next .entered (.findEntry key) (some e) (.reading e)
  | absent : Next .entered (.findEntry key) none (.failed (.notRegistered key.name))
  | claim {slot : SlotId} : Next .entered (.claimSlot key) slot (.claimed slot)
  | hit {slot : SlotId} {e : Entry} (h : e.Suits terms key slot) :
      Next (.claimed slot) (.readEntry slot) (some e) (.reading e)
  | miss {slot : SlotId} : Next (.claimed slot) (.readEntry slot) none (.missed slot)
  | tryGate {slot : SlotId} : Next (.missed slot) (.tryGate slot) true (.gated slot)
  | gateHeld {slot : SlotId} (h : terms.alone = none) :
      Next (.missed slot) (.tryGate slot) false (.missed slot)
  | takeGate {slot : SlotId} : Next (.missed slot) (.takeGate slot) () (.gated slot)
  | pass {slot : SlotId} {e : Entry} (h : e.Suits terms key slot) :
      Next (.gated slot) (.readEntry slot) (some e) (.passed e)
  | confirm {slot : SlotId} : Next (.gated slot) (.readEntry slot) none (.vacant slot)
  | attempt {slot : SlotId} {p : ProducerId} {run : Nat} (h : offer = some p) :
      Next (.vacant slot) (.beginRun slot key p) run (.trying slot p run)
  | tried {slot : SlotId} {p : ProducerId} {run : Nat} {outcome : Outcome} {r : Resolved}
      (h : Made key p run outcome r) :
      Next (.trying slot p run) (.endRun slot key p run outcome) r (.tried slot r)
  | publish {slot : SlotId} {e : Entry} (h : e.Suits terms key slot)
      (hi : e.resolution.instance? = none) (hp : e.resolution.producer? = offer) :
      Next (.vacant slot) (.publish slot e) e (.announcing e 0)
  | publishMade {slot : SlotId} {e : Entry} {inst : Instance} (h : e.Suits terms key slot)
      (hi : e.resolution.instance? = some inst) :
      Next (.tried slot (.ok inst)) (.publish slot e) e (.announcing e 0)
  | tell {e : Entry} {told : Nat} (h : told < terms.observers) :
      Next (.announcing e told) (.observe told (.registered key e.policy)) ()
        (.announcing e (told + 1))
  | free {e : Entry} : Next (.announcing e terms.observers) (.freeGate e.slot) () (.reading e)
  | freePassed {e : Entry} : Next (.passed e) (.freeGate e.slot) () (.reading e)
  | freeTried {slot : SlotId} {error : ResolveError} :
      Next (.tried slot (.error error)) (.freeGate slot) () (.failed error)
  | see {e : Entry} {inst : Instance} (hl : e.resolution.isLazy) (h : terms.inst inst)
      (hk : inst.key = key) :
      Next (.reading e) (.readCell e.slot) (some inst) (.settled e inst)
  | unseen {e : Entry} : Next (.reading e) (.readCell e.slot) none (.reading e)
  | share {e : Entry} {inst : Instance} (hl : e.resolution.isLazy) (h : terms.inst inst)
      (hk : inst.key = key) :
      Next (.reading e) (.claimCell e.slot) (some inst) (.settled e inst)
  | claimCell {e : Entry} (h : e.resolution.isLazy) :
      Next (.reading e) (.claimCell e.slot) none (.filling e)
  | makeFresh {e : Entry} {p : ProducerId} {run : Nat} (h : e.resolution.isLazy = false)
      (hp : e.resolution.producer? = some p) :
      Next (.reading e) (.beginRun e.slot key p) run (.making e p run)
  | makeShared {e : Entry} {p : ProducerId} {run : Nat} (h : e.resolution.isLazy)
      (hp : e.resolution.producer? = some p) :
      Next (.filling e) (.beginRun e.slot key p) run (.making e p run)
  | made {e : Entry} {p : ProducerId} {run : Nat} {outcome : Outcome} {r : Resolved}
      (h : Made key p run outcome r) :
      Next (.making e p run) (.endRun e.slot key p run outcome) r (.made e r)
  | fill {e : Entry} {inst : Instance} (h : e.resolution.isLazy) (hi : terms.inst inst)
      (hk : inst.key = key) :
      Next (.made e (.ok inst)) (.fillCell e.slot inst) () (.settled e inst)
  | unfill {e : Entry} {error : ResolveError} (h : e.resolution.isLazy) :
      Next (.made e (.error error)) (.freeCell e.slot) () (.failed error)
  | observe {s : Stage} {i : Nat} {notice : Notice} (h : notice.registered? = none) :
      Next s (.observe i notice) () s

/-- The results with which a call for `key` comes back from a stage. -/
inductive Ends : Stage → Resolved → Prop
  | stored {e : Entry} {inst : Instance} (h : e.resolution.instance? = some inst) :
      Ends (.reading e) (.ok inst)
  | cached {e : Entry} {inst : Instance} : Ends (.settled e inst) (.ok inst)
  | fresh {e : Entry} {inst : Instance} (h : e.resolution.isLazy = false) :
      Ends (.made e (.ok inst)) (.ok inst)
  | spoiled {e : Entry} {error : ResolveError} (h : e.resolution.isLazy = false) :
      Ends (.made e (.error error)) (.error error)
  | failed {error : ResolveError} : Ends (.failed error) (.error error)
  /-- Somebody holds the gate, and the thread may not wait. -/
  | held {slot : SlotId} : Ends (.missed slot) (.error (.blockingInAsyncContext key.name))
  /-- The producer is awaited, and the thread may not wait. -/
  | awaited {e : Entry} (h : e.policy.mode = .async) :
      Ends (.reading e) (.error (.blockingInAsyncContext key.name))

end Stage

/-- The steps of a client, and what calls it makes before and after. -/
inductive Move (terms : Terms) : List Call → (a : Action) → a.Response → List Call → Prop
  | own {c : Call} {calls : List Call} {a : Action} {r : a.Response} {s : Stage}
      (h : c.stage.Next terms c.key c.offer a r s) :
      Move terms (c :: calls) a r ({ c with stage := s } :: calls)
  | enter {calls : List Call} {mode : Mode} {key : Key} {offer : Option ProducerId}
      (hc : Callable calls) (h : (trailOf calls).refusal? key.name = none)
      (asked : terms.asks (calls.map Call.key) key) :
      Move terms calls (.enter mode key offer) (.ok (trailOf calls).task)
        (⟨key, mode, offer, .entered⟩ :: calls)
  | refuse {calls : List Call} {mode : Mode} {key : Key} {offer : Option ProducerId}
      {e : ResolveError} (hc : Callable calls) (h : (trailOf calls).refusal? key.name = some e)
      (asked : terms.asks (calls.map Call.key) key) (told : terms.refuses e) :
      Move terms calls (.enter mode key offer) (.error e) calls
  | leave {c : Call} {calls : List Call} {result : Resolved} (h : c.stage.Ends c.key result)
      (given : terms.gives c.key result) :
      Move terms (c :: calls) (.leave c.mode c.key (trailOf calls).task result) () calls
  | aside {calls : List Call} {a : Action} {r : a.Response} (hc : Callable calls)
      (ha : a.IsAside) : Move terms calls a r calls

/-- A step that a client may take: one that has a response, or a call, whether it is refused or
not. -/
inductive Open (terms : Terms) (calls : List Call) : Action → Prop
  | move {a : Action} {r : a.Response} {calls' : List Call} (h : Move terms calls a r calls') :
      Open terms calls a
  | ask {mode : Mode} {key : Key} {offer : Option ProducerId} (hc : Callable calls)
      (asked : terms.asks (calls.map Call.key) key) : Open terms calls (.enter mode key offer)

end Wiring.Registry
