import Wiring.Registry.Call

/-!
Sessions with one registry: requests made from outside in the context of some thread or task.
Clients may work in turn, or one of them may be held at a pause while another works; a machine
that has started lets their steps interleave in every other way.
-/
namespace Wiring.Registry

inductive Context
  | plain
  | current
  | multi
  | task
  | blocking
deriving DecidableEq, Repr

def Context.runtime : Context → Runtime
  | .plain => .none
  | .current => .currentThread
  | .multi | .task | .blocking => .multiThread

structure Demand where
  request : Request .sync ⊕ Request .async
  context : Context

def Demand.program (setting : Setting) (d : Demand) : Program Reply :=
  match d.request with
  | .inl request => request.fromOutside setting d.context.runtime
  | .inr request => request.fromOutside setting d.context.runtime

inductive Event
  | noted (note : Note)
  | observed (observer : Nat) (notice : Notice)
deriving Repr

/-- What can be seen of a history from outside, in the order in which it happened. -/
def History.events (h : History) : List Event :=
  h.reverse.filterMap fun p =>
    match p.action with
    | .note note => some (.noted note)
    | .observe observer notice => some (.observed observer notice)
    | _ => none

/-- What one client does: its demands, one after another. -/
def work (setting : Setting) (demands : List Demand) : Program (List Reply) :=
  demands.mapM fun d => d.program setting

def Machine.start (setting : Setting) (jobs : List (List Demand)) : Machine :=
  ⟨jobs.map fun demands => ⟨.empty, work setting demands⟩, .empty, []⟩

def inTurn (setting : Setting) (me : ClientId) (demands : List Demand) (store : Store)
    (history : History) : Option (List Reply × Situation) :=
  (work setting demands).run me ⟨.empty, store, history⟩

/-- The holder works up to its pause, the others work in turn, and the holder finishes. -/
def contend (setting : Setting) (holder : Demand) (others : List Demand) (store : Store) :
    Option ((List Reply × Reply) × Situation) := do
  let (rest, w) ← (holder.program setting).runToPause 1 ⟨.empty, store, []⟩
  let (replies, w') ← inTurn setting 0 others w.store w.history
  let (reply, last) ← rest.run 1 { w' with trail := w.trail }
  return ((replies, reply), last)

end Wiring.Registry
