import Mathlib.Data.List.Find
import Mathlib.Data.List.Nodup
import Wiring.Proofs.Emission.Rebuilding
import Wiring.Proofs.Generation.Filing
import Wiring.Proofs.Text.Utf8

/-!
What a run without mirrors keeps. Artifacts are written into one directory under their names, and
these are made from the file names of the sources alone, so of artifacts with one name the directory
keeps the last. A run keeps all its artifacts if and only if those with one name do not differ.
-/
namespace Wiring

open FileSystem (Arrives)

namespace Path

theorem plain_of_mem_pieces {xs piece : List Char} (h : piece ∈ pieces xs) : '/' ∉ piece := by
  induction xs generalizing piece with
  | nil =>
      obtain rfl := List.mem_singleton.1 h
      exact List.not_mem_nil
  | cons c rest ih =>
      rw [pieces] at h
      split at h
      · cases h with
        | head => exact List.not_mem_nil
        | tail _ h => exact ih h
      · next hc =>
          obtain ⟨first, more, hp⟩ := exists_pieces rest
          rw [hp] at ih h
          cases h with
          | head =>
              intro slash
              obtain slash | slash := List.mem_cons.1 slash
              · exact hc slash.symm
              · exact ih List.mem_cons_self slash
          | tail _ h => exact ih (List.mem_cons_of_mem _ h)

theorem plain_of_fileName {p : Path} {name : List Char} (h : p.fileName? = some name) :
    '/' ∉ name := by
  have last := List.mem_of_getLast? (Option.filter_eq_some_iff.1 h).1
  exact plain_of_mem_pieces (List.mem_filter.1 last).1

theorem stem_subset (name : List Char) : stem name ⊆ name := by
  unfold stem
  split
  · exact List.Subset.refl _
  · intro c hc
    have there := List.mem_of_mem_tail (List.mem_reverse.1 hc)
    exact List.mem_reverse.1 ((List.dropWhile_sublist _).subset there)

end Path

/-- Where the suffix has no slash, the name of an artifact has none. -/
theorem Config.plain_artifactName {config : Config} (plain : '/' ∉ config.artifactSuffix.toList)
    (source : String) : '/' ∉ (config.artifactName source).toList := by
  simp only [artifactName, String.toList_append, List.mem_append, plain, or_false]
  cases h : (Path.ofString source).fileStem? with
  | none => decide
  | some stem =>
      obtain ⟨name, hn, rfl⟩ := Option.map_eq_some_iff.1 h
      rw [String.toList_ofList]
      exact fun slash => Path.plain_of_fileName hn (Path.stem_subset name slash)

/-- The file of a name that a path is joined with is in the directory that the path leads to. -/
theorem FileSystem.target?_join {fs : FileSystem} {root : Path} {name : List Char} {place : Place}
    (plain : '/' ∉ name) (h : fs.target? (root.join ⟨name⟩) = some place) :
    ∃ parent, fs.Arrives (fs.origin root) root.components parent ∧ place = parent ++ [name] := by
  obtain ⟨-, before, last, parent, he, hw, -, -, rfl⟩ := target?_eq_some_iff.1 h
  obtain ⟨front, split, steps⟩ := pieces_join root plain
  have origin : fs.origin (root.join ⟨name⟩) = fs.origin root := by
    rw [FileSystem.origin, isAbsolute_join plain]
    rfl
  by_cases void : name = [] ∨ name = ['.'] ∨ name = ['.', '.']
  · exact absurd he (ending_of_void split void)
  · obtain ⟨named, here, above⟩ : name ≠ [] ∧ name ≠ ['.'] ∧ name ≠ ['.', '.'] := by
      simpa only [not_or] using void
    cases (ending_of_pieces split named here above).symm.trans he
    rw [walkDirectory_eq_ok_iff, origin, steps] at hw
    exact ⟨parent, hw, rfl⟩

namespace DirectorySink

/-- The file that an artifact is written to holds its contents. -/
def Keeps (s : DirectorySink) (fs : FileSystem) (a : Artifact) : Prop :=
  fs.read (s.artifactPath a) = .ok (Text.encode a.contents)

variable {s : DirectorySink} {fs : FileSystem} {a b : Artifact} {artifacts : List Artifact}

/-- Artifacts are written to one file if they have one name. -/
theorem target?_artifactPath_eq_iff (plain : '/' ∉ a.name.toList) (plain' : '/' ∉ b.name.toList)
    (ha : (fs.target? (s.artifactPath a)).isSome) :
    fs.target? (s.artifactPath b) = fs.target? (s.artifactPath a) ↔ b.name = a.name := by
  constructor
  · intro same
    obtain ⟨place, ha⟩ := Option.isSome_iff_exists.1 ha
    rw [ha] at same
    obtain ⟨parent, first, rfl⟩ := FileSystem.target?_join plain ha
    obtain ⟨parent', second, there⟩ := FileSystem.target?_join plain' same
    cases first.walk.symm.trans second.walk
    exact (String.toList_inj.1 (List.singleton_inj.1 (List.append_cancel_left there))).symm
  · intro same
    rw [artifactPath, artifactPath, same]

/-- What is read of an artifact after the copies have been made: the last one of its name. -/
theorem read_copies (unmirrored : s.mirrors = false) (plain : ∀ a ∈ artifacts, '/' ∉ a.name.toList)
    (placed : s.Placed fs artifacts) (ha : a ∈ artifacts) :
    ∃ b, artifacts.reverse.find? (fun b => b.name = a.name) = some b ∧
      ((s.copies artifacts).foldl FileSystem.keep fs).read (s.artifactPath a) =
        .ok (Text.encode b.contents) := by
  obtain ⟨place, target⟩ := Option.isSome_iff_exists.1 (placed a ha)
  have copies : s.copies artifacts = artifacts.map s.primary := by
    simp [DirectorySink.copies, DirectorySink.mirrored, unmirrored, ← List.map_eq_flatMap]
  have last : (s.copies artifacts).reverse.find? (fun c => fs.target? c.path = some place) =
      (artifacts.reverse.find? fun b => b.name = a.name).map s.primary := by
    rw [copies, ← List.map_reverse, List.find?_map]
    congr 1
    refine List.find?_congr fun b hb => ?_
    rw [Function.comp_apply, decide_eq_decide, ← target,
      ← target?_artifactPath_eq_iff (plain a ha) (plain b (List.mem_reverse.1 hb)) (placed a ha)]
    rfl
  obtain ⟨b, found⟩ : ∃ b, artifacts.reverse.find? (fun b => b.name = a.name) = some b := by
    refine Option.isSome_iff_exists.1 (List.find?_isSome.2 ⟨a, List.mem_reverse.2 ha, ?_⟩)
    exact decide_eq_true rfl
  refine ⟨b, found, ?_⟩
  have same := FileSystem.sameDirectories_keeps fs (s.copies artifacts)
  rw [FileSystem.read_of_target ((same.target? _).trans target), FileSystem.bytesAt?_keeps, last,
    found]
  rfl

end DirectorySink

namespace BuildPass

open DirectorySink (ofConfig)

variable {p : BuildPass} {config : Config} {fs fs' : FileSystem} {report : Report}

theorem plain_of_mem_artifacts (plain : '/' ∉ config.artifactSuffix.toList) {a : Artifact}
    (ha : a ∈ (p.generate config).artifacts) : '/' ∉ a.name.toList := by
  obtain ⟨codes, -, -, hx⟩ := mem_artifacts_iff.1 ha
  rw [hx]
  exact config.plain_artifactName plain a.source

/-- An artifact starts with the line that names its source. -/
theorem firstLine_contents {source : String} (plain : '\n' ∉ source.toList) (codes : List String) :
    (contents source codes).toList.takeWhile (· != '\n') =
      "// @generated by ferrous-autowire from `".toList ++ (source.toList ++
        "`. Do not edit.".toList) := by
  have before : ∀ c ∈ "// @generated by ferrous-autowire from `".toList, (c != '\n') = true :=
    List.all_eq_true.1 (by decide +kernel)
  have within : ∀ c ∈ source.toList, (c != '\n') = true := fun c hc =>
    bne_iff_ne.2 fun he => plain (he ▸ hc)
  have after : ∀ c ∈ "`. Do not edit.".toList, (c != '\n') = true :=
    List.all_eq_true.1 (by decide +kernel)
  have ends : "`. Do not edit.\n".toList = "`. Do not edit.".toList ++ ['\n'] := by decide +kernel
  unfold contents header
  simp only [String.toList_append, ends, List.append_assoc, List.singleton_append]
  rw [List.takeWhile_append_of_pos before, List.takeWhile_append_of_pos within,
    List.takeWhile_append_of_pos after, List.takeWhile_cons_of_neg (by simp), List.append_nil]

theorem contents_injective {source source' : String} {codes codes' : List String}
    (plain : '\n' ∉ source.toList) (plain' : '\n' ∉ source'.toList)
    (h : contents source codes = contents source' codes') : source = source' := by
  have same := firstLine_contents plain codes
  rw [h, firstLine_contents plain' codes'] at same
  exact (String.toList_inj.1 (List.append_cancel_right (List.append_cancel_left same))).symm

/-- Artifacts of different sources differ. -/
theorem eq_of_contents (lines : ∀ a ∈ (p.generate config).artifacts, '\n' ∉ a.source.toList)
    {a b : Artifact} (ha : a ∈ (p.generate config).artifacts)
    (hb : b ∈ (p.generate config).artifacts) (h : a.contents = b.contents) : a = b := by
  have linesA := lines a ha
  have linesB := lines b hb
  obtain ⟨codes, -, hc, hx⟩ := mem_artifacts_iff.1 ha
  obtain ⟨codes', -, hc', hy⟩ := mem_artifacts_iff.1 hb
  rw [hx, hy] at h
  have source := contents_injective linesA linesB h
  rw [hx, hy, hc, hc', source]

/-- What is read of an artifact after a run without mirrors. -/
theorem read_of_run (unmirrored : config.mirrorBesideInputs = false)
    (plain : '/' ∉ config.artifactSuffix.toList)
    (ran : p.run config (ofConfig config).sink fs = (.ok report, fs')) {a : Artifact}
    (ha : a ∈ (p.generate config).artifacts) :
    ∃ b, (p.generate config).artifacts.reverse.find? (fun b => b.name = a.name) = some b ∧
      fs'.read ((ofConfig config).artifactPath a) = .ok (Text.encode b.contents) := by
  obtain ⟨empty, -⟩ | ⟨made, ready, placed, -, rfl⟩ := run_spec ran
  · rw [empty] at ha
    cases ha
  · have names (a : Artifact) (ha : a ∈ (p.generate config).artifacts) : '/' ∉ a.name.toList :=
      plain_of_mem_artifacts plain ha
    exact DirectorySink.read_copies unmirrored names placed ha

theorem keeps_iff_of_name (unmirrored : config.mirrorBesideInputs = false)
    (plain : '/' ∉ config.artifactSuffix.toList)
    (ran : p.run config (ofConfig config).sink fs = (.ok report, fs')) :
    (∀ a ∈ (p.generate config).artifacts, (ofConfig config).Keeps fs' a) ↔
      ∀ a ∈ (p.generate config).artifacts, ∀ b ∈ (p.generate config).artifacts,
        a.name = b.name → a.contents = b.contents := by
  constructor
  · intro kept a ha b hb same
    have first := kept a ha
    have second := kept b hb
    rw [DirectorySink.Keeps, DirectorySink.artifactPath] at first second
    rw [same] at first
    exact Text.encode_injective (Except.ok.inj (first.symm.trans second))
  · intro same a ha
    obtain ⟨b, found, read⟩ := read_of_run unmirrored plain ran ha
    have hb := List.mem_reverse.1 (List.mem_of_find?_eq_some found)
    have named := List.find?_some found
    rw [decide_eq_true_eq] at named
    rw [DirectorySink.Keeps, read, same b hb a ha named]

theorem nodup_artifacts : (p.generate config).artifacts.Nodup := by
  have increasing : ((p.generate config).artifacts.map Artifact.source).Pairwise (· < ·) := by
    rw [map_source_artifacts, List.pairwise_map]
    exact (groupBlocks _).sorted
  exact .of_map _ (increasing.imp fun h => String.ne_of_lt h)

/-- A run without mirrors leaves of the artifacts of one name the last. It keeps them all if and
only if those of one name do not differ; where no source has a line feed in its path, these are the
runs in which no two artifacts have one name. -/
theorem artifacts_kept_iff_names_apart (unmirrored : config.mirrorBesideInputs = false)
    (plain : '/' ∉ config.artifactSuffix.toList)
    (ran : p.run config (ofConfig config).sink fs = (.ok report, fs')) :
    (∀ a ∈ (p.generate config).artifacts, ∃ b,
        (p.generate config).artifacts.reverse.find? (fun b => b.name = a.name) = some b ∧
          fs'.read ((ofConfig config).artifactPath a) = .ok (Text.encode b.contents)) ∧
      ((∀ a ∈ (p.generate config).artifacts, (ofConfig config).Keeps fs' a) ↔
        ∀ a ∈ (p.generate config).artifacts, ∀ b ∈ (p.generate config).artifacts,
          a.name = b.name → a.contents = b.contents) ∧
      ((∀ a ∈ (p.generate config).artifacts, '\n' ∉ a.source.toList) →
        ((∀ a ∈ (p.generate config).artifacts, (ofConfig config).Keeps fs' a) ↔
          ((p.generate config).artifacts.map Artifact.name).Nodup)) := by
  have kept_iff := keeps_iff_of_name unmirrored plain ran
  refine ⟨fun a ha => read_of_run unmirrored plain ran ha, kept_iff, fun lines => ?_⟩
  rw [kept_iff, List.nodup_map_iff_inj_on nodup_artifacts]
  constructor
  · intro same a ha b hb named
    exact eq_of_contents lines ha hb (same a ha b hb named)
  · intro apart a ha b hb named
    rw [apart a ha b hb named]

def unmirrored : Config := { Config.standard with mirrorBesideInputs := false, cacheDir := "out" }

def home : FileSystem := .emptyAt [['h', 'o', 'm', 'e']]

/-- The names and sources of its artifacts decide whether a pass runs to its end at home. -/
theorem exists_run_at_home {named : List (String × String)}
    (same : (p.generate unmirrored).artifacts.map (fun a => (a.name, a.source)) = named)
    (some : named ≠ [])
    (placed : ∀ n ∈ named, ((home.ensureDirectories (ofConfig unmirrored).root).2.target?
      ((ofConfig unmirrored).root.join (.ofString n.1))).isSome) :
    ∃ report fs', p.run unmirrored (ofConfig unmirrored).sink home = (.ok report, fs') := by
  have ensured : home.ensureDirectories (ofConfig unmirrored).root =
      (none, (home.ensureDirectories (ofConfig unmirrored).root).2) :=
    Prod.ext (by decide +kernel) rfl
  subst same
  obtain ⟨report, ran⟩ := exists_run (p := p) ensured
    (fun a ha => placed (a.name, a.source) (List.mem_map_of_mem ha)) fun empty =>
      some (by rw [empty]; rfl)
  exact ⟨report, _, ran⟩

theorem disk_and_link_are_kept : ∃ report fs',
    diskPass.run unmirrored (ofConfig unmirrored).sink home = (.ok report, fs') ∧
      ∀ a ∈ (diskPass.generate unmirrored).artifacts, (ofConfig unmirrored).Keeps fs' a := by
  have named : (diskPass.generate unmirrored).artifacts.map (fun a => (a.name, a.source)) =
      [("link.autowire.rs", "net/link.rs"), ("disk.autowire.rs", "src/disk.rs")] := by
    decide +kernel
  obtain ⟨report, fs', ran⟩ := exists_run_at_home named (by simp) (by decide +kernel)
  obtain ⟨-, -, kept_iff⟩ := artifacts_kept_iff_names_apart rfl (by decide +kernel) ran
  refine ⟨report, fs', ran, (kept_iff fun a ha => ?_).2 ?_⟩
  · have there := List.mem_map_of_mem (f := fun a : Artifact => (a.name, a.source)) ha
    rw [named] at there
    have plain : ∀ n ∈ [("link.autowire.rs", "net/link.rs"), ("disk.autowire.rs", "src/disk.rs")],
        '\n' ∉ n.2.toList := by decide +kernel
    exact plain _ there
  · have names := congrArg (List.map Prod.fst) named
    rw [List.map_map] at names
    rw [show Artifact.name = Prod.fst ∘ fun a : Artifact => (a.name, a.source) from rfl, names]
    decide

def linkPass : BuildPass where
  classes := [
    ⟨"Radio", ⟨"air/link.rs", 1, 1⟩, .silent, some ⟨.function "new", false, false, []⟩⟩,
    ⟨"Modem", ⟨"net/link.rs", 1, 1⟩, .silent, some ⟨.function "new", false, false, []⟩⟩]
  external := .empty

/-- The run writes both artifacts, and reports no problem. -/
theorem a_link_is_overwritten : ∃ report fs',
    linkPass.run unmirrored (ofConfig unmirrored).sink home = (.ok report, fs') ∧
      report.artifacts = ["link.autowire.rs", "link.autowire.rs"] ∧ report.errors = [] ∧
        ∃ a ∈ (linkPass.generate unmirrored).artifacts, ¬(ofConfig unmirrored).Keeps fs' a := by
  have named : (linkPass.generate unmirrored).artifacts.map (fun a => (a.name, a.source)) =
      [("link.autowire.rs", "air/link.rs"), ("link.autowire.rs", "net/link.rs")] := by
    decide +kernel
  obtain ⟨report, fs', ran⟩ := exists_run_at_home named (by simp) (by decide +kernel)
  obtain ⟨radio, rest, artifacts, first, more⟩ := List.map_eq_cons_iff.1 named
  obtain ⟨modem, none, rfl, second, empty⟩ := List.map_eq_cons_iff.1 more
  obtain rfl := List.map_eq_nil_iff.1 empty
  obtain ⟨radioName, radioSource⟩ := Prod.mk.inj first
  obtain ⟨modemName, modemSource⟩ := Prod.mk.inj second
  obtain ⟨-, -, errors⟩ := run_eq_ok_iff.1 ran
  have lines : ∀ a ∈ (linkPass.generate unmirrored).artifacts, '\n' ∉ a.source.toList := by
    rw [artifacts]
    simp [radioSource, modemSource]
  have hr : radio ∈ (linkPass.generate unmirrored).artifacts := by simp [artifacts]
  have hm : modem ∈ (linkPass.generate unmirrored).artifacts := by simp [artifacts]
  refine ⟨report, fs', ran, ?_, errors.trans (by decide +kernel), ?_⟩
  · obtain ⟨empty, -⟩ | ⟨_, -, -, names, -⟩ := run_spec ran
    · rw [empty] at artifacts
      cases artifacts
    · rw [names, artifacts, List.map_cons, List.map_singleton, radioName, modemName]
  · by_contra kept
    simp only [not_exists, not_and, not_not] at kept
    have same := (keeps_iff_of_name rfl (by decide +kernel) ran).1 kept radio hr modem hm
      (radioName.trans modemName.symm)
    rw [eq_of_contents lines hr hm same, modemSource] at radioSource
    exact absurd radioSource (by decide)

end BuildPass

end Wiring
