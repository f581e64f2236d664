import Wiring.Key
import Wiring.Registry.Error

/-!
What a registry stores and what its producers are. A producer is a script of registry requests,
chosen by how often the producer has run before; an entry binds a key to a policy, and its
resolution says what the policy keeps.
-/
namespace Wiring.Registry

/-- Identity of a producer: of a type's accessor, or of one handed to a single registration. -/
inductive ProducerId
  | accessor (key : Key)
  | given (serial : Nat)
deriving DecidableEq, Repr

structure Payload where
  label : Option String
  deps : List Nat
deriving DecidableEq, Repr

abbrev Outcome := Except ResolveError Payload

/-- An instance, with the run that made it. Equal serials mean the same instance. -/
structure Instance where
  serial : Nat
  key : Key
  producer : ProducerId
  run : Nat
  payload : Payload
deriving Repr

abbrev Resolved := Except ResolveError Instance

inductive EntryState
  | unregistered
  | registeredSync
  /-- Registered with an awaited policy and nothing cached yet. -/
  | asyncPending
  | asyncResolved
deriving DecidableEq, Repr

def EntryState.name : EntryState → String
  | .unregistered => "Unregistered"
  | .registeredSync => "RegisteredSync"
  | .asyncPending => "RegisteredAsyncPending"
  | .asyncResolved => "RegisteredAsyncResolved"

inductive Reply
  | resolved (result : Resolved)
  | state (state : EntryState)
  | policy (policy : Option Policy)
  | flag (value : Bool)
  | count (value : Nat)
  | text (value : String)
  | done
deriving Repr

inductive Note
  | run (key : Key) (label : Option String)
  | step (verb : String) (reply : Reply)
deriving Repr

mutual

/-- A request to the registry. The awaited ones can be made by awaited code alone. -/
inductive Request : Mode → Type
  | get (key : Key) : Request .sync
  | resolve (key : Key) : Request .sync
  | register (key : Key) (policy : Policy) (producer : Nat → Script .sync) : Request .sync
  | getAsync (key : Key) : Request .async
  | resolveAsync (key : Key) : Request .async
  | registerAsync (key : Key) (policy : Policy) (producer : Nat → Script .async) : Request .async
  | state (key : Key) : Request .sync
  | policyOf (key : Key) : Request .sync
  | contains (key : Key) : Request .sync
  | len : Request .sync
  | isEmpty : Request .sync
  | describe : Request .sync
  | reset : Request .sync
  | pause : Request .sync
  | yield : Request .async

/-- The body of a producer: requests in sequence, each chosen by the replies before it. -/
inductive Script : Mode → Type
  | finish {m : Mode} (outcome : Outcome) : Script m
  | note {m : Mode} (note : Note) (next : Script m) : Script m
  | call {m : Mode} (request : Request .sync) (next : Reply → Script m) : Script m
  | await (request : Request .async) (next : Reply → Script .async) : Script .async

end

/-- A producer: its script for the first run, the second run, and so on. -/
structure Producer (m : Mode) where
  id : ProducerId
  script : Nat → Script m

inductive Resolution
  | factory (producer : Producer .sync)
  | singleton (inst : Instance)
  | lazySingleton (producer : Producer .sync)
  | factoryAsync (producer : Producer .async)
  | singletonAsync (inst : Instance)
  | lazySingletonAsync (producer : Producer .async)

/-- Place of the storage of one key between two resets. -/
abbrev SlotId := Nat

structure Entry where
  key : Key
  policy : Policy
  slot : SlotId
  resolution : Resolution

/-- The hand-written or generated accessor of a type: its policy, and its producer for the
entry point that the policy calls for. -/
structure Accessor where
  policy : Policy
  script : (m : Mode) → Nat → Script m

inductive Notice
  | registered (key : Key) (policy : Policy)
  | producing (key : Key)
  | produced (key : Key)
  | failed (key : Key) (error : ResolveError)
  | reset (dropped : Nat)
deriving Repr

end Wiring.Registry
