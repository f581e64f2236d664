import Wiring.Json.Shape

/-!
Settings of the generator, their defaults and their form in documents, where every field may be
left out.
-/
namespace Wiring

structure Config where
  /-- The path by which generated code reaches the registry. -/
  runtimeCrate : String
  /-- What is put after the stem of a source file to name its artifact. -/
  artifactSuffix : String
  /-- Whether names of parameters choose the placeholders of texts. -/
  placeholderHeuristics : Bool
  /-- Whether an artifact is also written beside its source file. -/
  mirrorBesideInputs : Bool
  cacheDir : String
deriving DecidableEq, Repr

namespace Config

def standard : Config where
  runtimeCrate := "::ferrous_autowire"
  artifactSuffix := ".autowire.rs"
  placeholderHeuristics := true
  mirrorBesideInputs := true
  cacheDir := "target/autowire"

instance : Inhabited Config := ⟨standard⟩

def fieldNames : List String :=
  ["runtime_crate", "artifact_suffix", "placeholder_heuristics", "mirror_beside_inputs",
    "cache_dir"]

def read : Json.Reader Config
  | room + 1, d =>
      match Json.fields fieldNames d with
      | some [runtimeCrate, artifactSuffix, heuristics, mirror, cacheDir] => do
          return {
            runtimeCrate := ← Json.defaulted Json.readText standard.runtimeCrate room runtimeCrate
            artifactSuffix :=
              ← Json.defaulted Json.readText standard.artifactSuffix room artifactSuffix
            placeholderHeuristics :=
              ← Json.defaulted Json.readBool standard.placeholderHeuristics room heuristics
            mirrorBesideInputs :=
              ← Json.defaulted Json.readBool standard.mirrorBesideInputs room mirror
            cacheDir := ← Json.defaulted Json.readText standard.cacheDir room cacheDir }
      | _ => none
  | _, _ => none

def write (c : Config) : Json :=
  .ofFields [("runtime_crate", .ofString c.runtimeCrate),
    ("artifact_suffix", .ofString c.artifactSuffix),
    ("placeholder_heuristics", .bool c.placeholderHeuristics),
    ("mirror_beside_inputs", .bool c.mirrorBesideInputs), ("cache_dir", .ofString c.cacheDir)]

end Config

end Wiring
