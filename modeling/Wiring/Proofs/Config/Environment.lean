import Wiring.Proofs.Config.Flags
import Wiring.Proofs.Documents.RoundTrip
import Wiring.Proofs.Text.Utf8

/-!
Settings from the environment. They depend on five variables alone: each of these settles its field,
and a flag that no text spells is reported. Settings that are put into those variables are read
back, and are those that their document says.
-/
namespace Wiring

namespace Environment

variable {env : Environment} {name other : String} {bytes : List UInt8}

/-- Names of which neither is found in a line of the other. -/
def Apart (name other : String) : Prop := ¬front name <+: front other ∧ ¬front other <+: front name

theorem Apart.symm (h : Apart name other) : Apart other name := And.symm h

/-- Two fronts of one line are one the front of the other. -/
theorem Apart.not_both (h : Apart name other) {line : List UInt8} :
    ¬(front name <+: line ∧ front other <+: line) :=
  fun ⟨first, second⟩ => (List.prefix_or_prefix_of_prefix first second).elim h.1 h.2

theorem after?_eq_none_iff {front line : List UInt8} :
    after? front line = none ↔ ¬front <+: line := by
  simp [after?]

theorem value?_set (env : Environment) (name : String) (bytes : List UInt8) :
    (env.set name bytes).value? name = some bytes := by
  have new : after? (front name) (front name ++ bytes) = some bytes := by simp [after?]
  rw [value?, set]
  induction env.lines with
  | nil => simp [replaceLine, new]
  | cons line lines ih =>
      rw [replaceLine]
      split
      · simp [new]
      · next absent =>
          rw [List.findSome?_cons, after?_eq_none_iff.2 (by simpa using absent)]
          exact ih

theorem value?_set_of_apart (apart : Apart name other) (env : Environment) (bytes : List UInt8) :
    (env.set name bytes).value? other = env.value? other := by
  have absent : ∀ {line}, front name <+: line → after? (front other) line = none := fun there =>
    after?_eq_none_iff.2 fun there' => apart.not_both ⟨there, there'⟩
  rw [value?, set, value?]
  induction env.lines with
  | nil => simp [replaceLine, absent (List.prefix_append ..)]
  | cons line lines ih =>
      rw [replaceLine]
      split
      · next there =>
          rw [List.findSome?_cons, List.findSome?_cons, absent (List.prefix_append ..),
            absent (List.isPrefixOf_iff_prefix.1 there)]
      · rw [List.findSome?_cons, List.findSome?_cons, ih]

theorem eq_of_front (plain : '=' ∉ other.toList) (h : front name <+: front other) :
    name = other := by
  have h := Text.isPrefix_of_encode h
  simp only [String.toList_append] at h
  obtain same | short := List.prefix_concat_iff.1 h
  · exact String.toList_inj.1 (List.append_cancel_right same)
  · exact absurd (short.subset (by simp)) plain

/-- Different names without an equals sign are apart. -/
theorem apart_of_ne (plain : '=' ∉ name.toList) (plain' : '=' ∉ other.toList) (ne : name ≠ other) :
    Apart name other :=
  ⟨fun h => ne (eq_of_front plain' h), fun h => ne (eq_of_front plain h).symm⟩

/-- Names that begin alike are apart if the rests of them are. -/
theorem Apart.append (start : String) (h : Apart name other) :
    Apart (start ++ name) (start ++ other) := by
  simpa only [Apart, front, String.append_assoc, Text.encode_append, List.prefix_append_right_inj]
    using h

@[simp] theorem text?_set (env : Environment) (name text : String) :
    (env.set name (Text.encode text)).text? name = some text := by
  rw [text?, value?_set, Option.bind_some, Text.decode?_encode]

theorem text?_set_of_apart (apart : Apart name other) (env : Environment) (bytes : List UInt8) :
    (env.set name bytes).text? other = env.text? other := by
  rw [text?, value?_set_of_apart apart, text?]

theorem text?_eq_some_iff {text : String} :
    env.text? name = some text ↔ env.value? name = some (Text.encode text) := by
  simp only [text?, Option.bind_eq_some_iff, Text.decode?_eq_some_iff]
  exact ⟨fun ⟨_, there, same⟩ => same ▸ there, fun there => ⟨_, there, rfl⟩⟩

def setAll (env : Environment) (settings : List (String × String)) : Environment :=
  settings.foldl (fun env s => env.set s.1 (Text.encode s.2)) env

/-- Of variables that are apart, each has the text that it was set to. -/
theorem text?_setAll {settings : List (String × String)}
    (apart : settings.Pairwise fun s s' => Apart s.1 s'.1) (env : Environment) :
    ∀ s ∈ settings, (env.setAll settings).text? s.1 = some s.2 := by
  have kept : ∀ settings : List (String × String), ∀ env : Environment, ∀ name,
      (∀ s ∈ settings, Apart s.1 name) → (env.setAll settings).text? name = env.text? name := by
    intro settings
    induction settings with
    | nil => exact fun _ _ _ => rfl
    | cons s settings ih =>
        intro env name apart
        obtain ⟨first, others⟩ := List.forall_mem_cons.1 apart
        exact (ih _ name others).trans (text?_set_of_apart first ..)
  induction settings generalizing env with
  | nil => exact fun _ absent => absurd absent List.not_mem_nil
  | cons s settings ih =>
      obtain ⟨first, others⟩ := List.pairwise_cons.1 apart
      refine List.forall_mem_cons.2 ⟨?_, ih others _⟩
      exact (kept settings _ s.1 fun s' h => (first s' h).symm).trans (text?_set ..)

end Environment

namespace Config

open Environment (Apart)

variable {env : Environment} {scope key : String}

def keys : List String :=
  ["RUNTIME_CRATE", "ARTIFACT_SUFFIX", "PLACEHOLDERS", "MIRROR", "CACHE_DIR"]

def given (env : Environment) (scope key : String) : Option String :=
  env.text? (variableName scope key)

theorem variables_apart (scope : String) :
    keys.Pairwise fun key key' => Apart (variableName scope key) (variableName scope key') := by
  have plain : ∀ key ∈ keys, '=' ∉ key.toList := by decide +kernel
  have different : keys.Nodup := by decide
  exact different.imp_of_mem fun h h' ne =>
    (Environment.apart_of_ne (plain _ h) (plain _ h') ne).append _

def Misspelled (env : Environment) (scope key raw : String) : Prop :=
  given env scope key = some raw ∧ ∀ b, ¬Spells raw b

/-- A flag is the one that its variable spells, or the one for a variable that is not set. -/
def Flagged (env : Environment) (scope key : String) (absent b : Bool) : Prop :=
  match given env scope key with
  | none => b = absent
  | some raw => Spells raw b

theorem flagOf_eq_ok_iff {absent b : Bool} :
    flagOf env scope key absent = .ok b ↔ Flagged env scope key absent b := by
  rw [flagOf, Flagged, given]
  cases env.text? (variableName scope key) with
  | none => simp [eq_comm]
  | some raw =>
      dsimp only
      rw [← flag?_eq_some_iff]
      cases flag? raw <;> simp

theorem flagOf_eq_error_iff (absent : Bool) {e : InvalidFlag} :
    flagOf env scope key absent = .error e ↔ e.key = key ∧ Misspelled env scope key e.value := by
  obtain ⟨key', raw⟩ := e
  rw [flagOf, Misspelled, given, ← flag?_eq_none_iff]
  cases env.text? (variableName scope key) with
  | none => simp
  | some text =>
      dsimp only
      cases flag : flag? text with
      | none =>
          simp only [Except.error.injEq, InvalidFlag.mk.injEq, Option.some.injEq]
          exact ⟨fun ⟨same, same'⟩ => ⟨same.symm, same', same' ▸ flag⟩,
            fun ⟨same, same', _⟩ => ⟨same.symm, same'⟩⟩
      | some b =>
          simp only [reduceCtorEq, Option.some.injEq, false_iff]
          rintro ⟨-, rfl, none⟩
          cases flag.symm.trans none

theorem ofEnvironment_eq_ok_iff {c : Config} : ofEnvironment env scope = .ok c ↔
    Flagged env scope "PLACEHOLDERS" standard.placeholderHeuristics c.placeholderHeuristics ∧
      Flagged env scope "MIRROR" standard.mirrorBesideInputs c.mirrorBesideInputs ∧
      c.runtimeCrate = (given env scope "RUNTIME_CRATE").getD standard.runtimeCrate ∧
      c.artifactSuffix = (given env scope "ARTIFACT_SUFFIX").getD standard.artifactSuffix ∧
      c.cacheDir = (given env scope "CACHE_DIR").getD standard.cacheDir := by
  obtain ⟨runtimeCrate, artifactSuffix, heuristics, mirror, cacheDir⟩ := c
  rw [← flagOf_eq_ok_iff, ← flagOf_eq_ok_iff, ofEnvironment]
  cases flagOf env scope "PLACEHOLDERS" standard.placeholderHeuristics with
  | error e => simp [bind, Except.bind]
  | ok b =>
      cases flagOf env scope "MIRROR" standard.mirrorBesideInputs with
      | error e => simp [bind, Except.bind]
      | ok b' =>
          simp only [bind, Except.bind, pure, Except.pure, Except.ok.injEq, Config.mk.injEq, textOf,
            given]
          constructor
          · rintro ⟨rfl, rfl, rfl, rfl, rfl⟩
            exact ⟨rfl, rfl, rfl, rfl, rfl⟩
          · rintro ⟨rfl, rfl, rfl, rfl, rfl⟩
            exact ⟨rfl, rfl, rfl, rfl, rfl⟩

/-- The flag for placeholders is looked at first. -/
theorem ofEnvironment_eq_error_iff {e : InvalidFlag} : ofEnvironment env scope = .error e ↔
    (e.key = "PLACEHOLDERS" ∧ Misspelled env scope "PLACEHOLDERS" e.value) ∨
      (∀ raw, ¬Misspelled env scope "PLACEHOLDERS" raw) ∧
        e.key = "MIRROR" ∧ Misspelled env scope "MIRROR" e.value := by
  have right : (∀ raw, ¬Misspelled env scope "PLACEHOLDERS" raw) ↔
      ∃ b, flagOf env scope "PLACEHOLDERS" standard.placeholderHeuristics = .ok b := by
    cases first : flagOf env scope "PLACEHOLDERS" standard.placeholderHeuristics with
    | error e =>
        have := ((flagOf_eq_error_iff _).1 first).2
        simp only [reduceCtorEq, exists_false, iff_false, not_forall, not_not]
        exact ⟨_, this⟩
    | ok b =>
        simp only [Except.ok.injEq, exists_eq', iff_true]
        intro raw wrong
        cases first.symm.trans ((flagOf_eq_error_iff _ (e := ⟨_, raw⟩)).2 ⟨rfl, wrong⟩)
  rw [right, ← flagOf_eq_error_iff standard.placeholderHeuristics,
    ← flagOf_eq_error_iff standard.mirrorBesideInputs, ofEnvironment]
  cases flagOf env scope "PLACEHOLDERS" standard.placeholderHeuristics with
  | error e' => simp [bind, Except.bind]
  | ok b =>
      cases flagOf env scope "MIRROR" standard.mirrorBesideInputs <;>
        simp [bind, Except.bind, pure, Except.pure]

def asVariables (c : Config) (scope placeholders mirror : String) : List (String × String) :=
  [(variableName scope "RUNTIME_CRATE", c.runtimeCrate),
    (variableName scope "ARTIFACT_SUFFIX", c.artifactSuffix),
    (variableName scope "PLACEHOLDERS", placeholders), (variableName scope "MIRROR", mirror),
    (variableName scope "CACHE_DIR", c.cacheDir)]

/-- Settings are read back from their variables, in whatever order these are set. -/
theorem ofEnvironment_setAll {c : Config} {placeholders mirror : String}
    (first : Spells placeholders c.placeholderHeuristics)
    (second : Spells mirror c.mirrorBesideInputs) {settings : List (String × String)}
    (all : settings.Perm (c.asVariables scope placeholders mirror)) (env : Environment) :
    ofEnvironment (env.setAll settings) scope = .ok c := by
  have apart : (c.asVariables scope placeholders mirror).Pairwise fun s s' => Apart s.1 s'.1 :=
    have names : (keys.map (variableName scope)).Pairwise Apart :=
      List.pairwise_map.2 (variables_apart scope)
    (List.pairwise_map (f := Prod.fst)).1 names
  have apart' := (all.pairwise_iff fun h => h.symm).2 apart
  have text : ∀ s ∈ c.asVariables scope placeholders mirror,
      (env.setAll settings).text? s.1 = some s.2 :=
    fun s hs => Environment.text?_setAll apart' env s (all.mem_iff.2 hs)
  simp only [asVariables, List.forall_mem_cons] at text
  obtain ⟨runtimeCrate, artifactSuffix, flag, flag', cacheDir, -⟩ := text
  simp [ofEnvironment_eq_ok_iff, Flagged, given, *]

/-- How settings are read from an environment. -/
structure ReadsFive (env : Environment) (scope : String) : Prop where
  /-- Nothing but the texts of the five variables counts. -/
  alone : ∀ env' scope', (∀ key ∈ keys, given env' scope' key = given env scope key) →
    ofEnvironment env' scope' = ofEnvironment env scope
  /-- A variable of another name changes nothing. -/
  others : ∀ name bytes, '=' ∉ name.toList → '=' ∉ (Text.upperText scope).toList →
    (∀ key ∈ keys, name ≠ variableName scope key) →
      ofEnvironment (env.set name bytes) scope = ofEnvironment env scope
  /-- A value that is not the bytes of a text is as good as none. -/
  decoded : ∀ key text, given env scope key = some text ↔
    env.value? (variableName scope key) = some (Text.encode text)
  refused : ∀ e, ofEnvironment env scope = .error e ↔
    (e.key = "PLACEHOLDERS" ∧ Misspelled env scope "PLACEHOLDERS" e.value) ∨
      (∀ raw, ¬Misspelled env scope "PLACEHOLDERS" raw) ∧
        e.key = "MIRROR" ∧ Misspelled env scope "MIRROR" e.value
  settled : ∀ c, ofEnvironment env scope = .ok c ↔
    Flagged env scope "PLACEHOLDERS" standard.placeholderHeuristics c.placeholderHeuristics ∧
      Flagged env scope "MIRROR" standard.mirrorBesideInputs c.mirrorBesideInputs ∧
      c.runtimeCrate = (given env scope "RUNTIME_CRATE").getD standard.runtimeCrate ∧
      c.artifactSuffix = (given env scope "ARTIFACT_SUFFIX").getD standard.artifactSuffix ∧
      c.cacheDir = (given env scope "CACHE_DIR").getD standard.cacheDir
  /-- Settings are the same from their variables, set in any order, and from their document. -/
  restored : ∀ (c : Config) (placeholders mirror : String) (settings : List (String × String)),
    Spells placeholders c.placeholderHeuristics → Spells mirror c.mirrorBesideInputs →
      settings.Perm (c.asVariables scope placeholders mirror) →
        ofEnvironment (env.setAll settings) scope = .ok c ∧
          (Json.parse? c.write.render).bind (read Json.textRoom) = some c

theorem ofEnvironment_congr {env' : Environment} {scope' : String}
    (same : ∀ key ∈ keys, given env' scope' key = given env scope key) :
    ofEnvironment env' scope' = ofEnvironment env scope := by
  simp only [keys, List.forall_mem_cons] at same
  obtain ⟨h₁, h₂, h₃, h₄, h₅, -⟩ := same
  simp only [given] at h₁ h₂ h₃ h₄ h₅
  simp only [ofEnvironment, flagOf, textOf, h₁, h₂, h₃, h₄, h₅]

/-- Settings depend on five variables alone, are refused if and only if a flag is misspelled, and
are read back from their variables as from their document. -/
theorem reads_five_variables (env : Environment) (scope : String) : ReadsFive env scope where
  alone _ _ := ofEnvironment_congr
  others name bytes plain plain' other := by
    refine ofEnvironment_congr fun key hkey => Environment.text?_set_of_apart ?_ ..
    have word : ∀ key ∈ keys, '=' ∉ key.toList := by decide +kernel
    refine Environment.apart_of_ne plain ?_ (other key hkey)
    simp [variableName, plain', word key hkey]
  decoded _ _ := Environment.text?_eq_some_iff
  refused _ := ofEnvironment_eq_error_iff
  settled _ := ofEnvironment_eq_ok_iff
  restored c placeholders mirror settings first second all :=
    ⟨ofEnvironment_setAll first second all env, by
      rw [c.means_write.read_render, if_pos (by rw [c.depth_write]; decide)]⟩

end Config

end Wiring
