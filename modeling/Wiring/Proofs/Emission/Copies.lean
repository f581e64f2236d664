import Wiring.Proofs.FileSystem.Directories
import Wiring.Sink.Directory

/-!
The copies that an emission makes. A sink that writes into a directory makes one copy of each
artifact there, and one beside its source if it mirrors. A copy whose path leads to no file is not
made; apart from these, what the emission leaves is what storing the copies one by one leaves.
-/
namespace Wiring

structure Copy where
  path : Path
  bytes : List UInt8

namespace FileSystem

def keep (fs : FileSystem) (c : Copy) : FileSystem :=
  match fs.target? c.path with
  | some place => fs.store place c.bytes
  | none => fs

variable {fs fs' : FileSystem} {c : Copy} {cs : List Copy} {place : Place}

theorem keep_of_target (h : fs.target? c.path = some place) :
    fs.keep c = fs.store place c.bytes := by
  rw [keep, h]

theorem keep_of_no_target (h : fs.target? c.path = none) : fs.keep c = fs := by
  rw [keep, h]

theorem sameDirectories_keep (fs : FileSystem) (c : Copy) : SameDirectories fs (fs.keep c) := by
  cases h : fs.target? c.path with
  | none =>
      rw [keep_of_no_target h]
      exact .refl fs
  | some place =>
      rw [keep_of_target h]
      exact sameDirectories_store (ne_nil_of_target h) (not_directory_of_target h)

theorem sameDirectories_keeps (fs : FileSystem) (cs : List Copy) :
    SameDirectories fs (cs.foldl keep fs) := by
  induction cs generalizing fs with
  | nil => exact .refl fs
  | cons c rest ih => exact (sameDirectories_keep fs c).trans (ih _)

theorem bytesAt?_keep (fs : FileSystem) (c : Copy) (place : Place) :
    (fs.keep c).bytesAt? place =
      if fs.target? c.path = some place then some c.bytes else fs.bytesAt? place := by
  cases h : fs.target? c.path with
  | none => simp [keep_of_no_target h]
  | some there =>
      rw [keep_of_target h, bytesAt?_store (ne_nil_of_target h)]
      simp only [Option.some.injEq, eq_comm]

/-- A file holds what the last copy made of it says. -/
theorem bytesAt?_keeps (fs : FileSystem) (cs : List Copy) (place : Place) :
    (cs.foldl keep fs).bytesAt? place =
      match cs.reverse.find? fun c => fs.target? c.path = some place with
      | some c => some c.bytes
      | none => fs.bytesAt? place := by
  induction cs generalizing fs with
  | nil => rfl
  | cons c rest ih =>
      rw [List.foldl_cons, ih, List.reverse_cons, List.find?_append, bytesAt?_keep]
      simp only [(sameDirectories_keep fs c).target?]
      cases rest.reverse.find? fun c => fs.target? c.path = some place with
      | some d => rfl
      | none =>
          by_cases h : fs.target? c.path = some place
          · simp [h]
          · simp [h]

def Agreeing (fs : FileSystem) (cs : List Copy) : Prop :=
  ∀ c ∈ cs, ∀ d ∈ cs, ∀ place, fs.target? c.path = some place → fs.target? d.path = some place →
    c.bytes = d.bytes

theorem Agreeing.kept (agreeing : fs.Agreeing cs) (hc : c ∈ cs)
    (h : fs.target? c.path = some place) : (cs.foldl keep fs).bytesAt? place = some c.bytes := by
  rw [bytesAt?_keeps]
  cases hd : cs.reverse.find? fun c => fs.target? c.path = some place with
  | none =>
      have absent := List.find?_eq_none.1 hd c (List.mem_reverse.2 hc)
      simp [h] at absent
  | some d =>
      have there := List.mem_reverse.1 (List.mem_of_find?_eq_some hd)
      have found := List.find?_some hd
      simp only [decide_eq_true_eq] at found
      exact congrArg some (agreeing d there c hc place found h)

theorem keeps_of_kept (kept : ∀ c ∈ cs, ∀ place, fs.target? c.path = some place →
    fs.bytesAt? place = some c.bytes) : cs.foldl keep fs = fs := by
  induction cs with
  | nil => rfl
  | cons c rest ih =>
      have same : fs.keep c = fs := by
        cases h : fs.target? c.path with
        | none => exact keep_of_no_target h
        | some place =>
            rw [keep_of_target h, store_of_there (kept c List.mem_cons_self place h)]
      rw [List.foldl_cons, same]
      exact ih fun d hd => kept d (List.mem_cons_of_mem _ hd)

/-- To make the same copies again changes nothing. -/
theorem Agreeing.again (agreeing : fs.Agreeing cs) :
    cs.foldl keep (cs.foldl keep fs) = cs.foldl keep fs := by
  refine keeps_of_kept fun c hc place h => ?_
  rw [(sameDirectories_keeps fs cs).target?] at h
  exact agreeing.kept hc h

theorem Agreeing.same (agreeing : fs'.Agreeing cs) (same : SameDirectories fs fs') :
    fs.Agreeing cs := by
  intro c hc d hd place hcp hdp
  rw [← same.target?] at hcp hdp
  exact agreeing c hc d hd place hcp hdp

end FileSystem

namespace DirectorySink

open FileSystem (SameDirectories keep)

def primary (s : DirectorySink) (a : Artifact) : Copy :=
  ⟨s.artifactPath a, Text.encode a.contents⟩

def secondary (a : Artifact) : Copy := ⟨mirrorPath a, Text.encode a.contents⟩

def mirrored (s : DirectorySink) (a : Artifact) : List Copy :=
  if s.mirrors then [secondary a] else []

def copies (s : DirectorySink) (artifacts : List Artifact) : List Copy :=
  artifacts.flatMap fun a => s.primary a :: s.mirrored a

/-- The directory of the sink is there, and stays for as long as no directory changes. -/
def Ready (s : DirectorySink) (fs : FileSystem) : Prop :=
  ∀ fs', SameDirectories fs fs' → fs'.ensureDirectories s.root = (none, fs')

/-- Every primary copy has a file that it leads to. -/
def Placed (s : DirectorySink) (fs : FileSystem) (artifacts : List Artifact) : Prop :=
  ∀ a ∈ artifacts, (fs.target? (s.artifactPath a)).isSome

variable {s : DirectorySink} {fs fs' : FileSystem} {artifacts : List Artifact}
  {result : List String × List String}

theorem Ready.same (ready : s.Ready fs) (same : SameDirectories fs fs') : s.Ready fs' :=
  fun fs'' same' => ready fs'' (same.trans same')

theorem Ready.emit (ready : s.Ready fs) (a : Artifact) :
    s.sink.emit a fs = inWords (fs.writeIfChanged (s.artifactPath a) (Text.encode a.contents)) := by
  simp only [sink, ready fs (.refl fs)]

theorem Ready.emit_of_target (ready : s.Ready fs) {a : Artifact}
    (h : (fs.target? (s.artifactPath a)).isSome) :
    s.sink.emit a fs = (none, fs.keep (s.primary a)) := by
  obtain ⟨place, h⟩ := Option.isSome_iff_exists.1 h
  rw [ready.emit, FileSystem.writeIfChanged_of_target h, FileSystem.keep_of_target h]
  rfl

theorem Ready.emit_of_no_target (ready : s.Ready fs) {a : Artifact}
    (h : fs.target? (s.artifactPath a) = none) :
    ∃ problem, s.sink.emit a fs = (some problem, fs) := by
  obtain ⟨e, failed⟩ := FileSystem.writeIfChanged_of_no_target h (Text.encode a.contents)
  exact ⟨e.message, by rw [ready.emit, failed]; rfl⟩

/-- The outcome of a mirroring is a warning at most. -/
theorem mirror_snd (s : DirectorySink) (a : Artifact) (fs : FileSystem) :
    (if s.mirrors then s.sink.mirror a fs else (none, fs)).2 = (s.mirrored a).foldl keep fs := by
  unfold mirrored
  split
  · next mirrors =>
      simp only [sink, mirrors, if_true, List.foldl_cons, List.foldl_nil, inWords]
      cases h : fs.target? (mirrorPath a) with
      | none =>
          obtain ⟨e, failed⟩ :=
            FileSystem.writeIfChanged_of_no_target h (Text.encode a.contents)
          rw [failed, FileSystem.keep_of_no_target (c := secondary a) h]
      | some place =>
          rw [FileSystem.writeIfChanged_of_target h, FileSystem.keep_of_target (c := secondary a) h]
          rfl
  · rfl

theorem emitAll_cons (s : DirectorySink) (a : Artifact) (rest : List Artifact) (fs : FileSystem)
    (emitted : s.sink.emit a fs = (none, fs')) :
    s.sink.emitAll s.mirrors (a :: rest) fs =
      let mirrored := if s.mirrors then s.sink.mirror a fs' else (none, fs')
      let later := s.sink.emitAll s.mirrors rest mirrored.2
      (later.1.map fun r => (a.name :: r.1, (mirrored.1.map (Sink.warning a)).toList ++ r.2),
        later.2) := by
  rw [Sink.emitAll, emitted]

/-- The copies of one artifact make no directory. -/
theorem sameDirectories_copies (s : DirectorySink) (a : Artifact) (fs : FileSystem) :
    SameDirectories fs ((s.mirrored a).foldl keep (fs.keep (s.primary a))) :=
  FileSystem.sameDirectories_keeps fs (s.primary a :: s.mirrored a)

/-- An emission that is not stopped makes all copies. -/
theorem Ready.emitAll_of_placed (ready : s.Ready fs) (placed : s.Placed fs artifacts) :
    ∃ warnings, s.sink.emitAll s.mirrors artifacts fs =
      (.ok (artifacts.map Artifact.name, warnings), (s.copies artifacts).foldl keep fs) := by
  induction artifacts generalizing fs with
  | nil => exact ⟨[], rfl⟩
  | cons a rest ih =>
      have emitted := ready.emit_of_target (placed a List.mem_cons_self)
      have same := s.sameDirectories_copies a fs
      obtain ⟨warnings, later⟩ := ih (ready.same same) fun b hb => by
        rw [same.target?]
        exact placed b (List.mem_cons_of_mem _ hb)
      rw [emitAll_cons s a rest fs emitted]
      simp only [mirror_snd, later, copies, List.flatMap_cons, List.cons_append, List.foldl_cons,
        List.foldl_append]
      exact ⟨_, rfl⟩

theorem Ready.placed_of_emitAll (ready : s.Ready fs)
    (emitted : s.sink.emitAll s.mirrors artifacts fs = (.ok result, fs')) :
    s.Placed fs artifacts := by
  induction artifacts generalizing fs fs' result with
  | nil => nofun
  | cons a rest ih =>
      cases h : fs.target? (s.artifactPath a) with
      | none =>
          obtain ⟨problem, failed⟩ := ready.emit_of_no_target h
          rw [Sink.emitAll, failed] at emitted
          cases emitted
      | some place =>
          have there : (fs.target? (s.artifactPath a)).isSome := by rw [h]; rfl
          have same := s.sameDirectories_copies a fs
          rw [emitAll_cons s a rest fs (ready.emit_of_target there)] at emitted
          simp only [mirror_snd] at emitted
          generalize hl : s.sink.emitAll s.mirrors rest _ = later at emitted
          obtain ⟨outcome, last⟩ := later
          cases outcome with
          | error e => cases emitted
          | ok r =>
              have placed := ih (ready.same same) hl
              intro b hb
              cases hb with
              | head => exact there
              | tail _ hb =>
                  rw [← same.target?]
                  exact placed b hb

theorem ready_of_ensured (ensured : fs.ensureDirectories s.root = (none, fs')) : s.Ready fs' :=
  fun _ same => FileSystem.ensureDirectories_again ensured same

/-- The first emission has the directories made, and the others find them. -/
theorem emitAll_of_ensured (ensured : fs.ensureDirectories s.root = (none, fs')) (a : Artifact)
    (rest : List Artifact) :
    s.sink.emitAll s.mirrors (a :: rest) fs = s.sink.emitAll s.mirrors (a :: rest) fs' := by
  have emit : s.sink.emit a fs = s.sink.emit a fs' := by
    rw [(ready_of_ensured ensured).emit]
    simp only [sink, ensured]
  rw [Sink.emitAll, Sink.emitAll, emit]

/-- What an emission comes to that is not stopped: the directories of the sink are made, and then
all copies. -/
theorem emitAll_spec (emitted : s.sink.emitAll s.mirrors artifacts fs = (.ok result, fs')) :
    artifacts = [] ∧ fs' = fs ∨ ∃ made, s.Ready made ∧ s.Placed made artifacts ∧
      result.1 = artifacts.map Artifact.name ∧ fs' = (s.copies artifacts).foldl keep made := by
  cases artifacts with
  | nil =>
      cases emitted
      exact .inl ⟨rfl, rfl⟩
  | cons a rest =>
      right
      obtain ⟨⟨refused, made⟩, hm⟩ : ∃ attempt, fs.ensureDirectories s.root = attempt := ⟨_, rfl⟩
      cases refused with
      | some e =>
          rw [Sink.emitAll] at emitted
          simp only [sink, hm] at emitted
          cases emitted
      | none =>
          have ready := ready_of_ensured hm
          rw [emitAll_of_ensured hm] at emitted
          have placed := ready.placed_of_emitAll emitted
          obtain ⟨warnings, all⟩ := ready.emitAll_of_placed placed
          cases emitted.symm.trans all
          exact ⟨made, ready, placed, rfl, rfl⟩

end DirectorySink

end Wiring
