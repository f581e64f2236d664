import Wiring.Registry.Program

/-!
The calls a client makes. Each is guarded by the resolution trail, finds or registers the entry of
its key and reads it as the entry's policy says. Registration holds the gate of the slot; a lazy
entry is filled by whoever claims its cell first.
-/
namespace Wiring.Registry

/-- What a thread is driven by, which decides whether plain code may wait for awaited code. -/
inductive Runtime
  | none
  | currentThread
  | multiThread
deriving DecidableEq, Repr

/-- What a registry was built with: how many observers watch it and what accessors exist. -/
structure Setting where
  observers : Nat
  accessor : Key → Accessor

/-- How the scripts of producers are carried out. -/
abbrev Runner := Runtime → {m : Mode} → Script m → Program Outcome

namespace Program

def announce (observers : Nat) (notice : Notice) : Program Unit :=
  (List.range observers).forM fun i => perform (.observe i notice)

/-- Carries out `body` as the resolution of `key`, unless the trail refuses it. -/
def guarded (mode : Mode) (key : Key) (offer : Option ProducerId) (body : Program Resolved) :
    Program Resolved := do
  match ← perform (.enter mode key offer) with
  | .error e => return .error e
  | .ok before =>
      let result ← body
      perform (.leave mode key before result)
      return result

/-- Plain code waiting for awaited code. A thread that drives a runtime of its own alone would wait
for itself, and with no runtime at hand a new one is made for the wait. -/
def waitFor (runtime : Runtime) (key : Key) (body : Runtime → Program Resolved) :
    Program Resolved :=
  match runtime with
  | .currentThread => return .error (.blockingInAsyncContext key.name)
  | .none | .multiThread => body .multiThread

/-- One run of a producer for what is or will be registered in a slot. -/
def produce (runner : Runner) (runtime : Runtime) (slot : SlotId) (key : Key) {m : Mode}
    (producer : Producer m) : Program Resolved := do
  let run ← perform (.beginRun slot key producer.id)
  let outcome ← runner runtime (producer.script run)
  perform (.endRun slot key producer.id run outcome)

/-- A run of which observers are told, where there are any. -/
def runProducer (setting : Setting) (runner : Runner) (runtime : Runtime) (slot : SlotId)
    (key : Key) {m : Mode} (producer : Producer m) : Program Resolved := do
  if setting.observers = 0 then
    produce runner runtime slot key producer
  else
    announce setting.observers (.producing key)
    let result ← produce runner runtime slot key producer
    match result with
    | .ok _ => announce setting.observers (.produced key)
    | .error e => announce setting.observers (.failed key e)
    return result

/-- The shorter way of a run that nobody is told of is the longer one without notices. -/
theorem runProducer_eq (setting : Setting) (runner : Runner) (runtime : Runtime) (slot : SlotId)
    (key : Key) {m : Mode} (producer : Producer m) :
    runProducer setting runner runtime slot key producer = do
      announce setting.observers (.producing key)
      let run ← perform (.beginRun slot key producer.id)
      let outcome ← runner runtime (producer.script run)
      let result ← perform (.endRun slot key producer.id run outcome)
      match result with
      | .ok inst =>
          announce setting.observers (.produced key)
          return .ok inst
      | .error e =>
          announce setting.observers (.failed key e)
          return .error e := by
  unfold runProducer produce
  split
  · next none =>
      rw [none]
      refine congrArg (bind _) (funext fun run => congrArg (bind _) (funext fun outcome => ?_))
      refine congrArg (step _) (funext fun result => ?_)
      cases result <;> rfl
  · simp only [LawfulMonad.bind_assoc]
    refine congrArg (bind _) (funext fun _ => congrArg (bind _) (funext fun run => ?_))
    refine congrArg (bind _) (funext fun outcome => congrArg (bind _) (funext fun result => ?_))
    cases result <;> rfl

/-- The cached instance of a lazy entry, made by `body` where there is none. -/
def initOnce (slot : SlotId) (body : Program Resolved) : Program Resolved := do
  match ← perform (.claimCell slot) with
  | some inst => return .ok inst
  | none =>
      match ← body with
      | .ok inst =>
          perform (.fillCell slot inst)
          return .ok inst
      | .error e =>
          perform (.freeCell slot)
          return .error e

def readSync (setting : Setting) (runner : Runner) (runtime : Runtime) (entry : Entry) :
    Program Resolved :=
  match entry.resolution with
  | .factory producer => runProducer setting runner runtime entry.slot entry.key producer
  | .singleton inst | .singletonAsync inst => return .ok inst
  | .lazySingleton producer =>
      initOnce entry.slot (runProducer setting runner runtime entry.slot entry.key producer)
  | .factoryAsync producer =>
      waitFor runtime entry.key fun inside =>
        runProducer setting runner inside entry.slot entry.key producer
  | .lazySingletonAsync producer => do
      match ← perform (.readCell entry.slot) with
      | some inst => return .ok inst
      | none =>
          waitFor runtime entry.key fun inside =>
            initOnce entry.slot (runProducer setting runner inside entry.slot entry.key producer)

/-- Reads an entry from awaited code, where plain entries are read on the spot. -/
def readAsync (setting : Setting) (runner : Runner) (runtime : Runtime) (entry : Entry) :
    Program Resolved :=
  match entry.resolution with
  | .factoryAsync producer => runProducer setting runner runtime entry.slot entry.key producer
  | .singletonAsync inst => return .ok inst
  | .lazySingletonAsync producer =>
      initOnce entry.slot (runProducer setting runner runtime entry.slot entry.key producer)
  | .factory _ | .singleton _ | .lazySingleton _ => readSync setting runner runtime entry

/-- An instance belongs to the key it is asked for. -/
def checked (key : Key) : Resolved → Resolved
  | .ok inst => if inst.key = key then .ok inst else .error (.typeMismatch key.name)
  | .error e => .error e

def publishEntry (setting : Setting) (entry : Entry) : Program Entry := do
  let published ← perform (.publish entry.slot entry)
  announce setting.observers (.registered entry.key entry.policy)
  return published

def registerSyncGated (setting : Setting) (runner : Runner) (runtime : Runtime) (slot : SlotId)
    (key : Key) (policy : Policy) (producer : Producer .sync) :
    Program (Except ResolveError Entry) := do
  match ← perform (.readEntry slot) with
  | some existing => return .ok existing
  | none =>
      match policy with
      | .factory => return .ok (← publishEntry setting ⟨key, policy, slot, .factory producer⟩)
      | .singleton =>
          match ← runProducer setting runner runtime slot key producer with
          | .ok inst =>
              return .ok (← publishEntry setting ⟨key, policy, slot, .singleton inst⟩)
          | .error e => return .error e
      | .lazySingleton =>
          return .ok (← publishEntry setting ⟨key, policy, slot, .lazySingleton producer⟩)
      | .factoryAsync | .singletonAsync | .lazySingletonAsync =>
          return .error (.policyMismatch key.name policy .sync)

def registerAsyncGated (setting : Setting) (runner : Runner) (runtime : Runtime) (slot : SlotId)
    (key : Key) (policy : Policy) (producer : Producer .async) :
    Program (Except ResolveError Entry) := do
  match ← perform (.readEntry slot) with
  | some existing => return .ok existing
  | none =>
      match policy with
      | .factoryAsync =>
          return .ok (← publishEntry setting ⟨key, policy, slot, .factoryAsync producer⟩)
      | .singletonAsync =>
          match ← runProducer setting runner runtime slot key producer with
          | .ok inst =>
              return .ok (← publishEntry setting ⟨key, policy, slot, .singletonAsync inst⟩)
          | .error e => return .error e
      | .lazySingletonAsync =>
          return .ok (← publishEntry setting ⟨key, policy, slot, .lazySingletonAsync producer⟩)
      | .factory | .singleton | .lazySingleton =>
          return .error (.policyMismatch key.name policy .async)

/-- Takes the gate of a slot from plain code. A gate that is held is waited for, except on a thread
that drives a runtime alone; `false` says that the wait is refused. -/
def takeGateSync (runtime : Runtime) (slot : SlotId) : Program Bool := do
  match ← perform (.tryGate slot) with
  | true => return true
  | false =>
      match runtime with
      | .currentThread => return false
      | .none | .multiThread =>
          perform (.takeGate slot)
          return true

def registerSync (setting : Setting) (runner : Runner) (runtime : Runtime) (slot : SlotId)
    (key : Key) (policy : Policy) (producer : Producer .sync) :
    Program (Except ResolveError Entry) := do
  match ← takeGateSync runtime slot with
  | true =>
      let entry ← registerSyncGated setting runner runtime slot key policy producer
      perform (.freeGate slot)
      return entry
  | false => return .error (.blockingInAsyncContext key.name)

def registerAsync (setting : Setting) (runner : Runner) (runtime : Runtime) (slot : SlotId)
    (key : Key) (policy : Policy) (producer : Producer .async) :
    Program (Except ResolveError Entry) := do
  perform (.takeGate slot)
  let entry ← registerAsyncGated setting runner runtime slot key policy producer
  perform (.freeGate slot)
  return entry

/-- The plain registering entry point. An entry that is there already is read, and the policy and
the producer handed in are dropped. -/
def getOrRegister (setting : Setting) (runner : Runner) (runtime : Runtime) (key : Key)
    (policy : Policy) (producer : Producer .sync) : Program Resolved :=
  if policy.isAsync then return .error (.policyMismatch key.name policy .sync)
  else guarded .sync key (some producer.id) do
    let slot ← perform (.claimSlot key)
    let entry ← match ← perform (.readEntry slot) with
      | some entry => pure (.ok entry)
      | none => registerSync setting runner runtime slot key policy producer
    match entry with
    | .ok entry => return checked key (← readSync setting runner runtime entry)
    | .error e => return .error e

def getOrRegisterAsync (setting : Setting) (runner : Runner) (runtime : Runtime) (key : Key)
    (policy : Policy) (producer : Producer .async) : Program Resolved :=
  if policy.isAsync then guarded .async key (some producer.id) do
    let slot ← perform (.claimSlot key)
    let entry ← match ← perform (.readEntry slot) with
      | some entry => pure (.ok entry)
      | none => registerAsync setting runner runtime slot key policy producer
    match entry with
    | .ok entry => return checked key (← readAsync setting runner runtime entry)
    | .error e => return .error e
  else return .error (.policyMismatch key.name policy .async)

def get (setting : Setting) (runner : Runner) (runtime : Runtime) (key : Key) : Program Resolved :=
  guarded .sync key none do
    match ← perform (.findEntry key) with
    | some entry => return checked key (← readSync setting runner runtime entry)
    | none => return .error (.notRegistered key.name)

def getAsync (setting : Setting) (runner : Runner) (runtime : Runtime) (key : Key) :
    Program Resolved :=
  guarded .async key none do
    match ← perform (.findEntry key) with
    | some entry => return checked key (← readAsync setting runner runtime entry)
    | none => return .error (.notRegistered key.name)

/-- The state of an entry follows from what its resolution holds. -/
def stateOf (key : Key) : Program EntryState := do
  match ← perform (.findEntry key) with
  | none => return .unregistered
  | some entry =>
      match entry.resolution with
      | .factory _ | .singleton _ | .lazySingleton _ => return .registeredSync
      | .factoryAsync _ => return .asyncPending
      | .singletonAsync _ => return .asyncResolved
      | .lazySingletonAsync _ =>
          match ← perform (.readCell entry.slot) with
          | some _ => return .asyncResolved
          | none => return .asyncPending

def reset (setting : Setting) : Program Unit := do
  let dropped ← perform .clearEntries
  announce setting.observers (.reset dropped)

end Program

def description (entries : Nat) : String :=
  "Registry \x7b entries: " ++ toString entries ++ " \x7d"

open Program

/-- One request, the scripts of producers being carried out by `runner`. -/
def Request.program (setting : Setting) (runner : Runner) (runtime : Runtime) :
    {m : Mode} → Request m → Program Reply
  | _, .get key => return .resolved (← Program.get setting runner runtime key)
  | _, .getAsync key => return .resolved (← Program.getAsync setting runner runtime key)
  | _, .resolve key =>
      let accessor := setting.accessor key
      return .resolved (← getOrRegister setting runner runtime key accessor.policy
        ⟨.accessor key, accessor.script .sync⟩)
  | _, .resolveAsync key =>
      let accessor := setting.accessor key
      return .resolved (← getOrRegisterAsync setting runner runtime key accessor.policy
        ⟨.accessor key, accessor.script .async⟩)
  | _, .register key policy script => do
      let id ← Program.perform .newProducer
      return .resolved (← getOrRegister setting runner runtime key policy ⟨id, script⟩)
  | _, .registerAsync key policy script => do
      let id ← Program.perform .newProducer
      return .resolved (← getOrRegisterAsync setting runner runtime key policy ⟨id, script⟩)
  | _, .state key => return .state (← stateOf key)
  | _, .policyOf key => return .policy ((← Program.perform (.findEntry key)).map Entry.policy)
  | _, .contains key => return .flag (← Program.perform (.findEntry key)).isSome
  | _, .len => return .count (← Program.perform .countEntries)
  | _, .isEmpty => return .flag ((← Program.perform .countEntries) == 0)
  | _, .describe => return .text (description (← Program.perform .countEntries))
  | _, .reset => do Program.reset setting; return .done
  | _, .pause => do Program.perform .pause; return .done
  | _, .yield => do Program.perform .yield; return .done

/-- A script, the requests in it being answered by the two functions given. -/
def Script.program (call : Request .sync → Program Reply) (await : Request .async → Program Reply) :
    {m : Mode} → Script m → Program Outcome
  | _, .finish outcome => return outcome
  | _, .note written next => do
      Program.perform (.note written)
      next.program call await
  | _, .call request next => do
      let reply ← call request
      (next reply).program call await
  | _, .await request next => do
      let reply ← await request
      (next reply).program call await

/-- Scripts nested at most `level` deep. The resolution trail refuses the request that would need a
deeper one, so the bottom is never reached from `maxDepth`. -/
def runScript (setting : Setting) : Nat → Runner
  | 0, _, _, _ => return .error (.depthExceeded maxDepth)
  | level + 1, runtime, _, script =>
      script.program (Request.program setting (runScript setting level) runtime)
        (Request.program setting (runScript setting level) runtime)

def Request.fromOutside (setting : Setting) (runtime : Runtime) {m : Mode} (r : Request m) :
    Program Reply :=
  r.program setting (runScript setting maxDepth) runtime

end Wiring.Registry
