import Wiring.Proofs.Emission.Copies

/-!
Running a pass again. Once a run has come to its end, and the copies it made of one file do not
differ, a further run of the pass finds every copy where it is to be, so it writes nothing.
-/
namespace Wiring

namespace BuildPass

open DirectorySink (ofConfig)

def copies (p : BuildPass) (config : Config) : List Copy :=
  (ofConfig config).copies (p.generate config).artifacts

variable {p : BuildPass} {config : Config} {fs fs' : FileSystem} {report : Report}

theorem run_eq_ok_iff : p.run config (ofConfig config).sink fs = (.ok report, fs') ↔
    (ofConfig config).sink.emitAll (ofConfig config).mirrors (p.generate config).artifacts fs =
        (.ok (report.artifacts, report.warnings), fs') ∧
      report.accessors = (p.generate config).accessors.length ∧
        report.errors = (p.generate config).errors := by
  have mirrors : (ofConfig config).mirrors = config.mirrorBesideInputs := rfl
  rw [run, mirrors]
  obtain ⟨⟨outcome, last⟩, he⟩ : ∃ emitted, (ofConfig config).sink.emitAll
    config.mirrorBesideInputs (p.generate config).artifacts fs = emitted := ⟨_, rfl⟩
  rw [he]
  cases outcome with
  | error e => simp [Except.map]
  | ok result =>
      constructor
      · rintro ⟨⟩
        exact ⟨rfl, rfl, rfl⟩
      · rintro ⟨emitted, accessors, errors⟩
        cases emitted
        obtain ⟨artifacts, n, es, warnings⟩ := report
        cases accessors
        cases errors
        rfl

/-- A run that comes to its end makes its directory, if it has anything to write, and its copies. -/
theorem run_spec (ran : p.run config (ofConfig config).sink fs = (.ok report, fs')) :
    (p.generate config).artifacts = [] ∧ fs' = fs ∨
      ∃ made, (ofConfig config).Ready made ∧
        (ofConfig config).Placed made (p.generate config).artifacts ∧
          report.artifacts = (p.generate config).artifacts.map Artifact.name ∧
            fs' = (p.copies config).foldl FileSystem.keep made := by
  obtain ⟨emitted, -, -⟩ := run_eq_ok_iff.1 ran
  exact DirectorySink.emitAll_spec emitted

/-- A run comes to its end if the directory can be made and each artifact has its place there. -/
theorem exists_run {made : FileSystem}
    (ensured : fs.ensureDirectories (ofConfig config).root = (none, made))
    (placed : (ofConfig config).Placed made (p.generate config).artifacts)
    (some : (p.generate config).artifacts ≠ []) :
    ∃ report, p.run config (ofConfig config).sink fs =
      (.ok report, (p.copies config).foldl FileSystem.keep made) := by
  obtain ⟨warnings, emitted⟩ :=
    (DirectorySink.ready_of_ensured ensured).emitAll_of_placed placed
  refine ⟨⟨(p.generate config).artifacts.map Artifact.name, (p.generate config).accessors.length,
    (p.generate config).errors, warnings⟩, run_eq_ok_iff.2 ⟨?_, rfl, rfl⟩⟩
  obtain ⟨a, rest, cons⟩ := List.exists_cons_of_ne_nil some
  rw [cons] at emitted
  rw [copies, cons, DirectorySink.emitAll_of_ensured ensured]
  exact emitted

/-- A pass that has been run is run again without a write: the tree stays as it is, stamps included,
and of the report only the wording of warnings may be another. -/
theorem rebuild_writes_nothing
    (ran : p.run config (ofConfig config).sink fs = (.ok report, fs'))
    (agreeing : fs'.Agreeing (p.copies config)) :
    ∃ again, p.run config (ofConfig config).sink fs' = (.ok again, fs') ∧
      again.artifacts = report.artifacts ∧ again.accessors = report.accessors ∧
        again.errors = report.errors := by
  obtain ⟨-, accessors, errors⟩ := run_eq_ok_iff.1 ran
  obtain ⟨empty, rfl⟩ | ⟨made, ready, placed, names, rfl⟩ := run_spec ran
  · exact ⟨report, ran, rfl, rfl, rfl⟩
  · have same := FileSystem.sameDirectories_keeps made (p.copies config)
    have placed' : (ofConfig config).Placed ((p.copies config).foldl FileSystem.keep made)
        (p.generate config).artifacts := by
      intro a ha
      rw [same.target?]
      exact placed a ha
    obtain ⟨warnings, emitted⟩ := (ready.same same).emitAll_of_placed placed'
    have unchanged := (agreeing.same same).again
    refine ⟨⟨report.artifacts, report.accessors, report.errors, warnings⟩,
      run_eq_ok_iff.2 ⟨?_, accessors, errors⟩, rfl, rfl, rfl⟩
    rw [emitted, names]
    exact congrArg (Prod.mk _) unchanged

def diskPass : BuildPass where
  classes := [
    ⟨"Disk", ⟨"src/disk.rs", 1, 1⟩, .silent, some ⟨.function "new", false, false, []⟩⟩,
    ⟨"Link", ⟨"net/link.rs", 1, 1⟩, .silent, some ⟨.function "new", false, false, []⟩⟩]
  external := .empty

def diskConfig : Config := { Config.standard with cacheDir := "src" }

def diskTree : FileSystem := .emptyAt [['h', 'o', 'm', 'e'], ['s', 'r', 'c']]

def diskHome : FileSystem := { diskTree with here := [['h', 'o', 'm', 'e']] }

theorem exists_disk_artifacts : ∃ link disk,
    (diskPass.generate diskConfig).artifacts = [link, disk] ∧
    (link.name = "link.autowire.rs" ∧ link.source = "net/link.rs") ∧
      disk.name = "disk.autowire.rs" ∧ disk.source = "src/disk.rs" := by
  have named : ((diskPass.generate diskConfig).artifacts.map fun a => (a.name, a.source)) =
      [("link.autowire.rs", "net/link.rs"), ("disk.autowire.rs", "src/disk.rs")] := by
    decide +kernel
  obtain ⟨link, rest, hl, first, more⟩ := List.map_eq_cons_iff.1 named
  obtain ⟨disk, none, hd, second, empty⟩ := List.map_eq_cons_iff.1 more
  obtain rfl := List.map_eq_nil_iff.1 empty
  exact ⟨link, disk, by rw [hl, hd], Prod.mk.inj first, Prod.mk.inj second⟩

/-- Of the copies two are of one file, and another one cannot be made. -/
theorem disk_is_not_written_again :
    ∃ report fs', diskPass.run diskConfig (ofConfig diskConfig).sink diskHome = (.ok report, fs') ∧
      fs' ≠ diskHome ∧ fs'.Agreeing (diskPass.copies diskConfig) ∧
        ∃ again, diskPass.run diskConfig (ofConfig diskConfig).sink fs' = (.ok again, fs') ∧
          again.artifacts = report.artifacts ∧ again.accessors = report.accessors ∧
            again.errors = report.errors := by
  obtain ⟨link, disk, artifacts, ⟨hl, hl'⟩, hd, hd'⟩ := exists_disk_artifacts
  have toLink : diskHome.target? ((ofConfig diskConfig).artifactPath link) =
      some [['h', 'o', 'm', 'e'], ['s', 'r', 'c'], "link.autowire.rs".toList] := by
    rw [DirectorySink.artifactPath, hl]
    decide +kernel
  have besideLink : diskHome.target? (DirectorySink.mirrorPath link) = none := by
    rw [DirectorySink.mirrorPath, hl, hl']
    decide +kernel
  have toDisk : diskHome.target? ((ofConfig diskConfig).artifactPath disk) =
      some [['h', 'o', 'm', 'e'], ['s', 'r', 'c'], "disk.autowire.rs".toList] := by
    rw [DirectorySink.artifactPath, hd]
    decide +kernel
  have besideDisk : diskHome.target? (DirectorySink.mirrorPath disk) =
      some [['h', 'o', 'm', 'e'], ['s', 'r', 'c'], "disk.autowire.rs".toList] := by
    rw [DirectorySink.mirrorPath, hd, hd']
    decide +kernel
  have copies : diskPass.copies diskConfig = [(ofConfig diskConfig).primary link,
      DirectorySink.secondary link, (ofConfig diskConfig).primary disk,
      DirectorySink.secondary disk] := by
    rw [BuildPass.copies, artifacts]
    rfl
  have ensured : diskHome.ensureDirectories (ofConfig diskConfig).root = (none, diskHome) := by
    decide +kernel
  obtain ⟨report, ran⟩ := exists_run (p := diskPass) ensured
    (by simp [artifacts, DirectorySink.Placed, toLink, toDisk]) (by simp [artifacts])
  have agreeing : diskHome.Agreeing (diskPass.copies diskConfig) := by
    simp [FileSystem.Agreeing, copies, DirectorySink.primary, DirectorySink.secondary, toLink,
      besideLink, toDisk, besideDisk]
  have same := FileSystem.sameDirectories_keeps diskHome (diskPass.copies diskConfig)
  have agreeing' := agreeing.same same.symm
  refine ⟨report, _, ran, fun unchanged => ?_, agreeing', rebuild_writes_nothing ran agreeing'⟩
  have kept := agreeing.kept (c := (ofConfig diskConfig).primary link) (by simp [copies]) toLink
  rw [unchanged] at kept
  have absent : diskHome.bytesAt? [['h', 'o', 'm', 'e'], ['s', 'r', 'c'],
      "link.autowire.rs".toList] = none := by decide +kernel
  cases absent.symm.trans kept

end BuildPass

end Wiring
