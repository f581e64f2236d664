import Wiring.Emission

/-!
Sinks that keep what they are given: one that stores artifacts, and one that fails where it is told
to and records what it took.
-/
namespace Wiring

structure Memory where
  artifacts : List Artifact
  mirrored : List String
deriving DecidableEq, Repr

namespace Memory

def empty : Memory := ⟨[], []⟩

def sink : Sink Memory where
  emit a m := (none, { m with artifacts := m.artifacts ++ [a] })
  mirror a m := (none, { m with mirrored := m.mirrored ++ [a.name] })

def get? (m : Memory) (name : String) : Option Artifact := m.artifacts.find? fun a => a.name == name

end Memory

/-- A sink that records names, and fails for those it is told to. -/
structure Faulty where
  emitFail : List String
  /-- `none` leaves every secondary copy alone. -/
  mirrorFail : Option (List String)
  message : String

namespace Faulty

def sink (f : Faulty) : Sink (List String) where
  emit a names :=
    if a.name ∈ f.emitFail then (some f.message, names) else (none, names ++ [a.name])
  mirror a names :=
    if a.name ∈ f.mirrorFail.getD [] then (some ("mirror " ++ f.message), names) else (none, names)

end Faulty

end Wiring
