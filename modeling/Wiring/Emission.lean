import Wiring.Generation

/-!
Writing the artifacts of a pass through a sink. A sink is any state machine with a primary and a
secondary copy to write; a primary copy that fails ends the emission, a secondary one is a warning.
-/
namespace Wiring

/-- A place for artifacts. Both operations say what went wrong, if anything did. -/
structure Sink (σ : Type) where
  emit : Artifact → σ → Option String × σ
  mirror : Artifact → σ → Option String × σ

structure EmitError where
  artifact : String
  source : String
deriving DecidableEq, Repr

def EmitError.message (e : EmitError) : String :=
  "Failed to write " ++ e.artifact ++ ": " ++ e.source

structure Report where
  artifacts : List String
  accessors : Nat
  errors : List GenerationError
  warnings : List String
deriving DecidableEq, Repr

namespace Report

def isClean (r : Report) : Bool := r.errors.isEmpty && r.warnings.isEmpty

end Report

namespace Sink

variable {σ : Type}

def warning (a : Artifact) (problem : String) : String :=
  "could not mirror " ++ a.name ++ " beside " ++ a.source ++ ": " ++ problem

/-- Writes the artifacts one by one, each beside its source too if `mirrored`. The result is the
names written and the warnings, or the failure that ended it. -/
def emitAll (sink : Sink σ) (mirrored : Bool) :
    List Artifact → σ → Except EmitError (List String × List String) × σ
  | [], s => (.ok ([], []), s)
  | a :: rest, s =>
      match sink.emit a s with
      | (some problem, s) => (.error ⟨a.name, problem⟩, s)
      | (none, s) =>
          let (problem, s) := if mirrored then sink.mirror a s else (none, s)
          let (result, s) := sink.emitAll mirrored rest s
          (result.map fun (names, warnings) =>
            (a.name :: names, (problem.map (warning a)).toList ++ warnings), s)

end Sink

def BuildPass.run {σ : Type} (p : BuildPass) (config : Config) (sink : Sink σ) (s : σ) :
    Except EmitError Report × σ :=
  let generation := p.generate config
  let (result, s) := sink.emitAll config.mirrorBesideInputs generation.artifacts s
  (result.map fun (names, warnings) =>
    ⟨names, generation.accessors.length, generation.errors, warnings⟩, s)

end Wiring
