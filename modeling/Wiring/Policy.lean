/-!
Registration policies: when an instance is made and whether it is shared. A policy is a timing
together with a mode, plain or awaited; the two counterparts change the mode and keep the timing.
-/
namespace Wiring

/-- How a producer or an entry point runs: on the calling thread, or awaited by a task. -/
inductive Mode
  | sync
  | async
deriving DecidableEq, Repr

inductive Policy
  | factory
  | singleton
  | lazySingleton
  | factoryAsync
  | singletonAsync
  | lazySingletonAsync
deriving DecidableEq, Repr

namespace Policy

/-- A class that names no policy gets a fresh instance on every request. -/
instance : Inhabited Policy := ⟨.factory⟩

def all : List Policy :=
  [.factory, .singleton, .lazySingleton, .factoryAsync, .singletonAsync, .lazySingletonAsync]

def mode : Policy → Mode
  | .factory | .singleton | .lazySingleton => .sync
  | .factoryAsync | .singletonAsync | .lazySingletonAsync => .async

def isAsync (p : Policy) : Bool := p.mode == .async

/-- Whether every resolution of an entry gives the same instance. -/
def isShared : Policy → Bool
  | .factory | .factoryAsync => false
  | .singleton | .lazySingleton | .singletonAsync | .lazySingletonAsync => true

/-- Whether the producer runs while the entry is being registered. -/
def isEager : Policy → Bool
  | .singleton | .singletonAsync => true
  | .factory | .lazySingleton | .factoryAsync | .lazySingletonAsync => false

def syncCounterpart : Policy → Policy
  | .factory | .factoryAsync => .factory
  | .singleton | .singletonAsync => .singleton
  | .lazySingleton | .lazySingletonAsync => .lazySingleton

def asyncCounterpart : Policy → Policy
  | .factory | .factoryAsync => .factoryAsync
  | .singleton | .singletonAsync => .singletonAsync
  | .lazySingleton | .lazySingletonAsync => .lazySingletonAsync

def name : Policy → String
  | .factory => "Factory"
  | .singleton => "Singleton"
  | .lazySingleton => "LazySingleton"
  | .factoryAsync => "FactoryAsync"
  | .singletonAsync => "SingletonAsync"
  | .lazySingletonAsync => "LazySingletonAsync"

def ofName? (text : String) : Option Policy :=
  all.find? fun p => p.name == text

instance : ToString Policy := ⟨name⟩

theorem ofName?_name (p : Policy) : ofName? p.name = some p := by
  cases p <;> decide

theorem mem_all (p : Policy) : p ∈ all := by
  cases p <;> decide

end Policy

end Wiring
