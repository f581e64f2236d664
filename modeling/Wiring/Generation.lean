import Wiring.Accessor
import Wiring.Path

/-!
What a build pass generates. Of classes with one identity and one place of the directive only the
first counts; each of these yields an accessor or an error, and the accessors of one source file
make up its artifact.
-/
namespace Wiring

/-- One generated file: every accessor declared in one source file. -/
structure Artifact where
  name : String
  source : String
  contents : String
deriving DecidableEq, Repr

structure Generation where
  /-- One for each source file with an accessor, in order of the files. -/
  artifacts : List Artifact
  accessors : List GeneratedAccessor
  errors : List GenerationError
deriving DecidableEq, Repr

def Config.artifactName (config : Config) (source : String) : String :=
  let stem := match (Path.ofString source).fileStem? with
    | some stem => String.ofList stem
    | none => "autowire"
  stem ++ config.artifactSuffix

namespace BuildPass

abbrev Mark := ClassId × Location

def mark (c : AnnotatedClass) : Mark := (c.id, c.directive.location)

/-- The classes whose mark is not among `seen` nor that of an earlier class. -/
def keepNew (seen : List Mark) : List AnnotatedClass → List AnnotatedClass
  | [] => []
  | c :: rest => if mark c ∈ seen then keepNew seen rest else c :: keepNew (mark c :: seen) rest

def kept (p : BuildPass) : List AnnotatedClass := keepNew [] p.classes

/-- The accessors generated so far, under their file and function, with their class. -/
abbrev Taken := List ((String × String) × String)

def outcome (managed : ManagedTypes) (config : Config) (taken : Taken) (c : AnnotatedClass) :
    Except GenerationError GeneratedAccessor := do
  let accessor ← c.accessor managed config
  match taken.lookup (c.location.file, accessor.function) with
  | some existing =>
      .error ⟨c.name, c.location, .duplicateAccessor accessor.function existing⟩
  | none => .ok accessor

def Taken.after (taken : Taken) (c : AnnotatedClass) :
    Except GenerationError GeneratedAccessor → Taken
  | .ok accessor => ((c.location.file, accessor.function), c.name) :: taken
  | .error _ => taken

def outcomesFrom (managed : ManagedTypes) (config : Config) (taken : Taken) :
    List AnnotatedClass → List (AnnotatedClass × Except GenerationError GeneratedAccessor)
  | [] => []
  | c :: rest =>
      let result := outcome managed config taken c
      (c, result) :: outcomesFrom managed config (taken.after c result) rest

def outcomes (p : BuildPass) (config : Config) :
    List (AnnotatedClass × Except GenerationError GeneratedAccessor) :=
  outcomesFrom p.managed config [] p.kept

def blocks (outcomes : List (AnnotatedClass × Except GenerationError GeneratedAccessor)) :
    List (String × String) :=
  outcomes.filterMap fun
    | (c, .ok accessor) => some (c.location.file, accessor.code)
    | (_, .error _) => none

/-- The blocks of each file, in order of the files and within a file as they come. -/
def groupBlocks (blocks : List (String × String)) : Table (List String) :=
  blocks.foldl (fun t b => t.alter b.1 fun old => old.getD [] ++ [b.2]) .empty

def header (source : String) : String :=
  "// @generated by ferrous-autowire from `" ++ source ++ "`. Do not edit.\n"

def contents (source : String) (blocks : List String) : String :=
  header source ++ String.join (blocks.map fun code => "\n" ++ code)

def generate (p : BuildPass) (config : Config) : Generation :=
  let outcomes := p.outcomes config
  { artifacts := (groupBlocks (blocks outcomes)).entries.map fun (source, blocks) =>
      ⟨config.artifactName source, source, contents source blocks⟩
    accessors := outcomes.filterMap fun o => o.2.toOption
    errors := outcomes.filterMap fun
      | (_, .error e) => some e
      | (_, .ok _) => none }

end BuildPass

end Wiring
