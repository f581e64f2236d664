import Wiring.Config
import Wiring.Text.Blank
import Wiring.Text.Case
import Wiring.Text.Quoted
import Wiring.Text.Utf8

/-!
Settings from environment variables. The five variables bear a common first part in upper case; a
value that is not text counts as unset, and the two flags have a few spellings each.
-/
namespace Wiring

/-- Lines of a name, an equals sign and a value. -/
structure Environment where
  lines : List (List UInt8)
deriving DecidableEq, Repr

namespace Environment

def empty : Environment := ⟨[]⟩

/-- What follows `front` in a list that begins with it. -/
def after? (front line : List UInt8) : Option (List UInt8) :=
  if front.isPrefixOf line then some (line.drop front.length) else none

def front (name : String) : List UInt8 := Text.encode (name ++ "=")

/-- The value of a variable. Nothing marks where the name of a line ends, so a name with an equals
sign in it finds lines of a shorter name too. -/
def value? (env : Environment) (name : String) : Option (List UInt8) :=
  env.lines.findSome? (after? (front name))

def replaceLine (front new : List UInt8) : List (List UInt8) → List (List UInt8)
  | [] => [new]
  | line :: rest =>
      if front.isPrefixOf line then new :: rest else line :: replaceLine front new rest

def set (env : Environment) (name : String) (bytes : List UInt8) : Environment :=
  ⟨replaceLine (front name) (front name ++ bytes) env.lines⟩

def text? (env : Environment) (name : String) : Option String :=
  (env.value? name).bind Text.decode?

end Environment

namespace Config

structure InvalidFlag where
  key : String
  value : String
deriving DecidableEq, Repr

def InvalidFlag.message (e : InvalidFlag) : String :=
  "Invalid value for " ++ e.key ++ ": " ++ Text.quote e.value ++ " is not a boolean"

/-- A flag, whatever the case of its letters and the blanks around it. -/
def flag? (value : String) : Option Bool :=
  let word := Text.lowerText (Text.trim value)
  if word ∈ ["1", "true", "yes", "on"] then some true
  else if word ∈ ["0", "false", "no", "off"] then some false
  else none

def variableName (scope key : String) : String := Text.upperText scope ++ "_" ++ key

def flagOf (env : Environment) (scope key : String) (absent : Bool) : Except InvalidFlag Bool :=
  match env.text? (variableName scope key) with
  | none => .ok absent
  | some value =>
      match flag? value with
      | some b => .ok b
      | none => .error ⟨key, value⟩

def textOf (env : Environment) (scope key : String) (absent : String) : String :=
  (env.text? (variableName scope key)).getD absent

/-- The first part of the names unless another one is given. -/
def defaultScope : String := "AUTOWIRE"

def ofEnvironment (env : Environment) (scope : String) : Except InvalidFlag Config := do
  let heuristics ← flagOf env scope "PLACEHOLDERS" standard.placeholderHeuristics
  let mirror ← flagOf env scope "MIRROR" standard.mirrorBesideInputs
  return {
    runtimeCrate := textOf env scope "RUNTIME_CRATE" standard.runtimeCrate
    artifactSuffix := textOf env scope "ARTIFACT_SUFFIX" standard.artifactSuffix
    placeholderHeuristics := heuristics
    mirrorBesideInputs := mirror
    cacheDir := textOf env scope "CACHE_DIR" standard.cacheDir }

end Config

end Wiring
