import Wiring.Registry.Call

/-!
Plans: producers written down as data. A plan names the requests that a run makes, what becomes of
an error among them, and in which runs the producer itself fails; `Plan.script` is the producer
that a plan describes.
-/
namespace Wiring.Registry

inductive OnError
  | stop
  /-- Stop, and report the error as a failure of the producer itself. -/
  | wrap
  | proceed
deriving DecidableEq, Repr

/-- A failure a producer is told to report: at the start of a run or at its end, and in its first
runs alone where a number of them is given. -/
structure Failure where
  error : ResolveError
  times : Option Nat
  atStart : Bool
deriving Repr

def Failure.strikes (f : Failure) (run : Nat) : Bool :=
  match f.times with
  | none => true
  | some n => decide (run ≤ n)

mutual

inductive Plan
  | mk (label : Option String) (failure : Option Failure) (steps : List PlanStep)

inductive PlanStep
  | mk (ask : Ask) (onError : OnError)

inductive Ask
  | get (key : Key)
  | getAsync (key : Key)
  | resolve (key : Key)
  | resolveAsync (key : Key)
  | register (key : Key) (policy : Policy) (plan : Plan)
  | registerAsync (key : Key) (policy : Policy) (plan : Plan)
  | state (key : Key)
  | policyOf (key : Key)
  | contains (key : Key)
  | len
  | isEmpty
  | describe
  | reset
  | pause
  | yield

end

def Ask.verb : Ask → String
  | .get _ => "get"
  | .getAsync _ => "get_async"
  | .resolve _ => "resolve"
  | .resolveAsync _ => "resolve_async"
  | .register .. => "register"
  | .registerAsync .. => "register_async"
  | .state _ => "state"
  | .policyOf _ => "policy_of"
  | .contains _ => "contains"
  | .len => "len"
  | .isEmpty => "is_empty"
  | .describe => "debug"
  | .reset => "reset"
  | .pause => "pause"
  | .yield => "yield"

/-- How a producer goes on after a reply: with an outcome, or with the instances it has so far. -/
def OnError.reaction (onError : OnError) (deps : List Nat) : Reply → Outcome ⊕ List Nat
  | .resolved (.ok inst) => .inr (deps ++ [inst.serial])
  | .resolved (.error e) =>
      match onError with
      | .stop => .inl (.error e)
      | .wrap => .inl (.error e.wrapped)
      | .proceed => .inr deps
  | _ => .inr deps

def ending (label : Option String) (fault : Option Failure) (deps : List Nat) : Outcome :=
  match fault with
  | some f => .error f.error
  | none => .ok ⟨label, deps⟩

mutual

/-- The producer for `key` that follows a plan. Plain code has no awaiting requests, so they are
left out of a plan that is read as plain code. -/
def Plan.script (key : Key) : Plan → (m : Mode) → Nat → Script m
  | .mk label failure steps, m, run =>
      let fault := failure.filter fun f => f.strikes run
      .note (.run key label) <|
        if fault.any Failure.atStart then .finish (ending label fault []) else
          followSteps label fault steps m []

def followSteps (label : Option String) (fault : Option Failure) :
    List PlanStep → (m : Mode) → List Nat → Script m
  | [], _, deps => .finish (ending label fault deps)
  | .mk ask onError :: rest, m, deps =>
      match m, ask.request with
      | m, .inl request => .call request fun reply =>
          .note (.step ask.verb reply) <|
            match onError.reaction deps reply with
            | .inl outcome => .finish outcome
            | .inr deps => followSteps label fault rest m deps
      | .async, .inr request => .await request fun reply =>
          .note (.step ask.verb reply) <|
            match onError.reaction deps reply with
            | .inl outcome => .finish outcome
            | .inr deps => followSteps label fault rest .async deps
      | .sync, .inr _ => followSteps label fault rest .sync deps

def Ask.request : Ask → Request .sync ⊕ Request .async
  | .get key => .inl (.get key)
  | .getAsync key => .inr (.getAsync key)
  | .resolve key => .inl (.resolve key)
  | .resolveAsync key => .inr (.resolveAsync key)
  | .register key policy plan => .inl (.register key policy (plan.script key .sync))
  | .registerAsync key policy plan => .inr (.registerAsync key policy (plan.script key .async))
  | .state key => .inl (.state key)
  | .policyOf key => .inl (.policyOf key)
  | .contains key => .inl (.contains key)
  | .len => .inl .len
  | .isEmpty => .inl .isEmpty
  | .describe => .inl .describe
  | .reset => .inl .reset
  | .pause => .inl .pause
  | .yield => .inr .yield

end

end Wiring.Registry
