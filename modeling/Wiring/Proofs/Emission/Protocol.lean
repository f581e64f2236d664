import Wiring.Emission

/-!
How a run uses its sink. A run calls the sink for one artifact after another, first for the primary
copy and then, if it mirrors, for the secondary one. It ends with the first primary copy that fails,
and a secondary copy that fails is a warning. Whatever state machine the sink is, these are the
calls that a record of its own would show.
-/
namespace Wiring

namespace Sink

inductive Call
  | emit (a : Artifact) (problem : Option String)
  | mirror (a : Artifact) (problem : Option String)
deriving DecidableEq, Repr

def Call.warning? : Call → Option String
  | .mirror a (some problem) => some (warning a problem)
  | .mirror _ none | .emit _ _ => none

variable {σ : Type}

/-- A sink that does as `sink` does and keeps a record of its calls. -/
def recorded (sink : Sink σ) : Sink (σ × List Call) where
  emit a s :=
    let (problem, s') := sink.emit a s.1
    (problem, s', s.2 ++ [.emit a problem])
  mirror a s :=
    let (problem, s') := sink.mirror a s.1
    (problem, s', s.2 ++ [.mirror a problem])

def callsFor (mirrored : Bool) (x : Artifact × Option String) : List Call :=
  .emit x.1 none :: if mirrored then [.mirror x.1 x.2] else []

/-- Which calls an emission of the artifacts makes, and what comes of it. `report` takes the names
and the warnings of an emission that is not stopped. -/
inductive Emission {ρ : Type} (mirrored : Bool) (artifacts : List Artifact)
    (report : List String → List String → ρ) : List Call → Except EmitError ρ → Prop
  | complete (made : List (Artifact × Option String)) (all : artifacts = made.map Prod.fst) :
      Emission mirrored artifacts report (made.flatMap (callsFor mirrored))
        (.ok (report (artifacts.map Artifact.name)
          ((made.flatMap (callsFor mirrored)).filterMap Call.warning?)))
  | stopped (made : List (Artifact × Option String)) {a : Artifact} {rest : List Artifact}
      {problem : String} (split : artifacts = made.map Prod.fst ++ a :: rest) :
      Emission mirrored artifacts report
        (made.flatMap (callsFor mirrored) ++ [.emit a (some problem)]) (.error ⟨a.name, problem⟩)

variable {mirrored : Bool} {artifacts : List Artifact} {calls : List Call}
  {outcome : Except EmitError (List String × List String)}

theorem Emission.map {ρ : Type} (h : Emission mirrored artifacts Prod.mk calls outcome)
    (report : List String → List String → ρ) :
    Emission mirrored artifacts report calls
      (outcome.map fun (names, warnings) => report names warnings) := by
  cases h with
  | complete made all => exact .complete made all
  | stopped made split => exact .stopped made split

/-- What comes of the artifacts after one whose primary copy is made comes of them all. -/
theorem Emission.cons (h : Emission mirrored artifacts Prod.mk calls outcome)
    (x : Artifact × Option String) :
    Emission mirrored (x.1 :: artifacts) Prod.mk (callsFor mirrored x ++ calls)
      (outcome.map fun (names, warnings) =>
        (x.1.name :: names, (callsFor mirrored x).filterMap Call.warning? ++ warnings)) := by
  cases h with
  | complete made all =>
      have longer : Emission mirrored (x.1 :: artifacts) Prod.mk _ _ :=
        .complete (x :: made) (congrArg (x.1 :: ·) all)
      rw [List.flatMap_cons, List.filterMap_append] at longer
      exact longer
  | @stopped made a rest problem split =>
      have longer : Emission mirrored (x.1 :: artifacts) Prod.mk _ (.error ⟨a.name, problem⟩) :=
        .stopped (x :: made) (congrArg (x.1 :: ·) split)
      rw [List.flatMap_cons, List.append_assoc] at longer
      exact longer

theorem emitAll_of_made {sink : Sink σ} {a : Artifact} {rest : List Artifact} {s t u v : σ}
    {problem : Option String} (emitted : sink.emit a s = (none, t))
    (copied : (if mirrored then sink.mirror a t else (none, t)) = (problem, u))
    (later : sink.emitAll mirrored rest u = (outcome, v)) :
    sink.emitAll mirrored (a :: rest) s =
      (outcome.map fun (names, warnings) =>
        (a.name :: names, (problem.map (warning a)).toList ++ warnings), v) := by
  simp only [emitAll, emitted, copied, later]

/-- The secondary copy of an artifact, for a sink and for its record. -/
theorem exists_copied (sink : Sink σ) (mirrored : Bool) (a : Artifact) (t : σ)
    (before : List Call) : ∃ problem u,
      (if mirrored then sink.mirror a t else (none, t)) = (problem, u) ∧
      (if mirrored then sink.recorded.mirror a (t, before ++ [.emit a none])
        else (none, t, before ++ [.emit a none])) =
          (problem, u, before ++ callsFor mirrored (a, problem)) ∧
      (callsFor mirrored (a, problem)).filterMap Call.warning? =
        (problem.map (warning a)).toList := by
  cases mirrored with
  | false => exact ⟨none, t, rfl, rfl, rfl⟩
  | true =>
      refine ⟨_, _, rfl, ?_, ?_⟩
      · simp [recorded, callsFor]
      · cases (sink.mirror a t).1 <;> rfl

/-- An emission into a sink is the same as one into its record, which shows the calls. -/
theorem emitAll_recorded (sink : Sink σ) (mirrored : Bool) (artifacts : List Artifact) (s : σ)
    (before : List Call) : ∃ outcome s' calls,
      sink.emitAll mirrored artifacts s = (outcome, s') ∧
      sink.recorded.emitAll mirrored artifacts (s, before) = (outcome, s', before ++ calls) ∧
      Emission mirrored artifacts Prod.mk calls outcome := by
  induction artifacts generalizing s before with
  | nil => exact ⟨_, s, [], rfl, by rw [List.append_nil]; rfl, .complete [] rfl⟩
  | cons a rest ih =>
      obtain ⟨⟨answer, t⟩, he⟩ : ∃ answered, sink.emit a s = answered := ⟨_, rfl⟩
      have emitted :
          sink.recorded.emit a (s, before) = (answer, t, before ++ [.emit a answer]) := by
        simp only [recorded, he]
      cases answer with
      | some problem =>
          refine ⟨.error ⟨a.name, problem⟩, t, [.emit a (some problem)], ?_, ?_, ?_⟩
          · rw [emitAll, he]
          · rw [emitAll, emitted]
          · exact .stopped [] rfl
      | none =>
          obtain ⟨problem, u, copied, copied', warnings⟩ := exists_copied sink mirrored a t before
          obtain ⟨outcome, s', calls, later, later', emission⟩ :=
            ih u (before ++ callsFor mirrored (a, problem))
          refine ⟨_, s', callsFor mirrored (a, problem) ++ calls, emitAll_of_made he copied later,
            ?_, warnings ▸ emission.cons (a, problem)⟩
          rw [emitAll_of_made emitted copied' later', List.append_assoc]

theorem filterMap_warning?_eq_nil_iff :
    calls.filterMap Call.warning? = [] ↔ ∀ a problem, .mirror a (some problem) ∉ calls := by
  rw [List.filterMap_eq_nil_iff]
  constructor
  · intro silent a problem failed
    cases silent _ failed
  · intro fine call there
    match call, there with
    | .emit _ _, _ => rfl
    | .mirror _ none, _ => rfl
    | .mirror a (some problem), failed => exact absurd failed (fine a problem)

end Sink

def Generation.report (g : Generation) (names warnings : List String) : Report :=
  ⟨names, g.accessors.length, g.errors, warnings⟩

namespace BuildPass

open Sink (Call Emission)

/-- A run is clean if no class is in error and no secondary copy has failed. -/
theorem isClean_iff {mirrored : Bool} {g : Generation} {calls : List Call} {report : Report}
    (h : Emission mirrored g.artifacts g.report calls (.ok report)) :
    report.isClean ↔ g.errors = [] ∧ ∀ a problem, .mirror a (some problem) ∉ calls := by
  cases h with
  | complete =>
      rw [← Sink.filterMap_warning?_eq_nil_iff, Report.isClean, Generation.report,
        Bool.and_eq_true, List.isEmpty_iff, List.isEmpty_iff]

/-- Into any sink a run emits what was generated, artifact by artifact, and makes no other call. -/
theorem run_follows_protocol {σ : Type} (p : BuildPass) (config : Config) (sink : Sink σ) (s : σ) :
    ∃ result s' calls, p.run config sink s = (result, s') ∧
      p.run config sink.recorded (s, []) = (result, s', calls) ∧
      Emission config.mirrorBesideInputs (p.generate config).artifacts (p.generate config).report
        calls result ∧
      ∀ report, result = .ok report → (report.isClean ↔
        (p.generate config).errors = [] ∧ ∀ a problem, .mirror a (some problem) ∉ calls) := by
  obtain ⟨outcome, s', calls, plain, kept, emission⟩ := Sink.emitAll_recorded sink
    config.mirrorBesideInputs (p.generate config).artifacts s []
  have reported := emission.map (p.generate config).report
  refine ⟨_, s', calls, ?_, ?_, reported, fun report complete => isClean_iff (complete ▸ reported)⟩
  · rw [run, plain]
    rfl
  · rw [run, kept]
    rfl

end BuildPass

end Wiring
