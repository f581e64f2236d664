import Wiring.Proofs.Emission.Keeping

/-!
Where the copies of an artifact are placed. Its name is one component that leads down, so the
primary copy is in the directory of the sink itself, and a copy beside the source is in the
directory of the source, however the two are written.
-/
namespace Wiring

open Wiring.Path (pieces isVoid)
open FileSystem (steps steps_append steps_pieces)

namespace Path

/-- Two texts of one path, which differ in what says nothing. -/
structure Same (p q : Path) : Prop where
  lead : p.split.1 = q.split.1
  components : p.components = q.components

/-- One component that leads down, and nothing else. -/
structure IsName (p : Path) : Prop where
  lead : p.split.1 = []
  components : p.components = [p.text]
  down : p.text ≠ ['.', '.']

structure IsIn (p dir : Path) (name : List Char) : Prop where
  lead : p.split.1 = dir.split.1
  components : p.components = dir.components ++ [name]
  named : p.fileName? = some name
  parent : ∃ parent, p.parent? = some parent ∧ parent.Same dir

theorem pieces_joinPieces {ps : List (List Char)} (plain : ∀ piece ∈ ps, '/' ∉ piece)
    (some : ps ≠ []) : pieces (joinPieces ps) = ps := by
  induction ps with
  | nil => exact absurd rfl some
  | cons piece more ih =>
      have here : '/' ∉ piece := plain piece List.mem_cons_self
      cases more with
      | nil => exact pieces_of_plain here
      | cons next more =>
          rw [joinPieces, pieces_append, pieces_of_plain here,
            ih (fun piece h => plain piece (List.mem_cons_of_mem _ h)) (List.cons_ne_nil _ _)]
          · rfl
          · exact List.cons_ne_nil _ _

/-- What is void at the end of a body is no component. -/
theorem steps_dropVoidEnd (ps : List (List Char)) : steps (dropVoidEnd ps) = steps ps := by
  have split : ps = dropVoidEnd ps ++ (ps.reverse.takeWhile isVoid).reverse := by
    unfold dropVoidEnd
    rw [← List.reverse_append, List.takeWhile_append_dropWhile, List.reverse_reverse]
  have void : steps (ps.reverse.takeWhile isVoid).reverse = [] := by
    rw [steps, List.filter_eq_nil_iff]
    intro piece h
    have void := List.all_eq_true.1 List.all_takeWhile piece (List.mem_reverse.1 h)
    simp [void]
  conv_rhs => rw [split, steps_append, void, List.append_nil]

theorem steps_joinPieces {ps : List (List Char)} (plain : ∀ piece ∈ ps, '/' ∉ piece) :
    steps (pieces (joinPieces ps)) = steps ps := by
  cases ps with
  | nil => rfl
  | cons piece more => rw [pieces_joinPieces plain (List.cons_ne_nil _ _)]

theorem dropVoidEnd_isPrefix (ps : List (List Char)) : dropVoidEnd ps <+: ps := by
  rw [← List.reverse_suffix, dropVoidEnd, List.reverse_reverse]
  exact List.dropWhile_suffix _

/-- The last piece of a body that is not void is its last component. -/
theorem steps_of_dropVoidEnd {ps before : List (List Char)} {last : List Char}
    (h : (dropVoidEnd ps).reverse = last :: before) :
    steps ps = steps before.reverse ++ [last] := by
  have solid : isVoid last = false := by
    have first := List.head?_dropWhile_not isVoid ps.reverse
    rw [dropVoidEnd, List.reverse_reverse] at h
    rw [h] at first
    simpa using first
  rw [← steps_dropVoidEnd ps, ← List.reverse_reverse (dropVoidEnd ps), h, List.reverse_cons,
    steps_append]
  simp [steps, solid]

/-- The lead is told by the first piece: the root has an empty one before the first slash. -/
theorem lead_eq (p : Path) :
    p.split.1 =
      if p.text.head? = some '/' then ['/']
      else if (pieces p.text).head? = some ['.'] then ['.'] else [] := by
  obtain ⟨text⟩ := p
  unfold split
  split
  · simp_all
  · simp_all [pieces]
  · simp_all [pieces]
  · next absolute dot here =>
      cases text with
      | nil => rfl
      | cons c rest =>
          have hc : c ≠ '/' := fun h => absolute rest (by simp [h])
          have hp : (pieces (c :: rest)).head? ≠ some ['.'] := by
            obtain ⟨piece, more, first⟩ := exists_pieces rest
            rw [pieces, if_neg hc, first]
            simp only [List.head?_cons, ne_eq, Option.some.injEq, List.cons.injEq, not_and]
            rintro rfl rfl
            cases rest with
            | nil => exact dot rfl
            | cons d rest =>
                by_cases hd : d = '/'
                · exact here rest (by rw [hd])
                · obtain ⟨piece', more', second⟩ := exists_pieces rest
                  rw [pieces, if_neg hd, second] at first
                  cases first
          simp [hc, hp]

/-- What follows a path after a slash says nothing of its lead. -/
theorem lead_append {xs ys : List Char} (nonempty : xs ≠ [])
    (apart : xs.getLast? = some '/' ∨ ys.head? = some '/') :
    (Path.split ⟨xs ++ ys⟩).1 = (Path.split ⟨xs⟩).1 := by
  have first : (pieces (xs ++ ys)).head? = (pieces xs).head? := by
    cases apart with
    | inl slashed =>
        obtain ⟨body, rfl⟩ := List.getLast?_eq_some_iff.1 slashed
        obtain ⟨piece, more, hp⟩ := exists_pieces body
        simp [pieces_append, hp]
    | inr slash =>
        obtain ⟨tail, rfl⟩ := List.head?_eq_some_iff.1 slash
        obtain ⟨piece, more, hp⟩ := exists_pieces xs
        simp [pieces_append, hp]
  simp only [lead_eq, first]
  rw [List.head?_append_of_ne_nil _ nonempty]

variable {p dir : Path} {name : List Char}

theorem isName_of_plain (plain : '/' ∉ name) (solid : ∃ c ∈ name, c ≠ '.') :
    (⟨name⟩ : Path).IsName := by
  obtain ⟨c, hc, dot⟩ := solid
  have here : name ≠ ['.'] := fun h => dot (List.mem_singleton.1 (h ▸ hc))
  have named : isVoid name = false := by
    simp [isVoid, here, List.ne_nil_of_mem hc]
  have above : name ≠ ['.', '.'] := by
    rintro rfl
    simp [dot] at hc
  refine ⟨?_, ?_, above⟩
  · rw [lead_eq, if_neg (head?_of_plain plain), pieces_of_plain plain]
    simp [here]
  · rw [← steps_pieces, pieces_of_plain plain]
    simp [steps, named]

/-- Texts that begin with the same pieces as one without a lead have none either. -/
theorem lead_eq_nil_of_prefix {xs ys : List Char} (relative : (Path.split ⟨ys⟩).1 = [])
    (front : pieces xs <+: pieces ys) : (Path.split ⟨xs⟩).1 = [] := by
  obtain ⟨first, more, hp⟩ := exists_pieces xs
  obtain ⟨rest, eq⟩ := front
  have head : (pieces ys).head? = some first := by rw [← eq, hp]; rfl
  have slash : ys.head? ≠ some '/' := by
    intro h
    rw [lead_eq, if_pos h] at relative
    cases relative
  rw [lead_eq, if_neg slash, head] at relative
  rw [lead_eq, if_neg, hp]
  · exact relative
  · intro h
    obtain ⟨tail, rfl⟩ := List.head?_eq_some_iff.1 h
    obtain ⟨piece, more', tailed⟩ := exists_pieces tail
    rw [pieces, if_pos rfl, tailed] at eq
    cases ys with
    | nil => simp [pieces] at eq
    | cons c ys =>
        have hc : c ≠ '/' := fun h => slash (by rw [h]; rfl)
        obtain ⟨piece', more'', inner⟩ := exists_pieces ys
        rw [pieces, if_neg hc, inner] at eq
        cases eq

/-- The first pieces of a body, put together again after the lead, have that lead and are the first
components. -/
theorem lead_joinPieces {parts : List (List Char)} (front : parts <+: pieces p.split.2) :
    (Path.split ⟨p.split.1 ++ joinPieces parts⟩).1 = p.split.1 ∧
      steps (pieces (p.split.1 ++ joinPieces parts)) = steps parts := by
  have plain : ∀ piece ∈ parts, '/' ∉ piece := fun piece h => plain_of_mem_pieces (front.subset h)
  have joined := steps_joinPieces plain
  obtain ⟨body, hs⟩ | ⟨body, hs, dotted⟩ | hs :
      (∃ body, p.split = (['/'], body)) ∨
        (∃ body, p.split = (['.'], body) ∧ ∃ more, pieces body = [] :: more) ∨
          p.split = ([], p.text) := by
    unfold split
    split
    · exact .inl ⟨_, rfl⟩
    · exact .inr (.inl ⟨_, rfl, _, rfl⟩)
    · exact .inr (.inl ⟨_, rfl, _, rfl⟩)
    · exact .inr (.inr rfl)
  · rw [hs]
    exact ⟨rfl, joined⟩
  · obtain ⟨more, dotted⟩ := dotted
    rw [hs, dotted] at front
    rw [hs]
    obtain rfl | ⟨more', rfl, -⟩ := List.prefix_cons_iff.1 front
    · exact ⟨rfl, rfl⟩
    · cases more' with
      | nil => exact ⟨rfl, rfl⟩
      | cons next more' => exact ⟨rfl, joined⟩
  · have relative : p.split.1 = [] := by rw [hs]
    rw [hs] at front ⊢
    refine ⟨?_, joined⟩
    cases parts with
    | nil => rfl
    | cons first more =>
        refine lead_eq_nil_of_prefix relative ?_
        rw [List.nil_append, pieces_joinPieces plain (List.cons_ne_nil _ _)]
        exact front

/-- A path with a component has a parent, which has the same lead and lacks that component. -/
theorem exists_parent (named : p.components ≠ []) :
    ∃ parent, p.parent? = some parent ∧ parent.split.1 = p.split.1 ∧
      parent.components = p.components.dropLast := by
  cases h : (dropVoidEnd (pieces p.split.2)).reverse with
  | nil =>
      rw [List.reverse_eq_nil_iff] at h
      refine absurd ?_ named
      change steps (pieces p.split.2) = []
      rw [← steps_dropVoidEnd, h]
      rfl
  | cons last before =>
      let parts := dropVoidEnd before.reverse
      have found : p.parent? = some ⟨p.split.1 ++ joinPieces parts⟩ := by
        simp only [parent?, h]
        rfl
      have lacks : p.components.dropLast = steps parts := by
        change (steps (pieces p.split.2)).dropLast = _
        rw [steps_of_dropVoidEnd h, List.dropLast_concat, steps_dropVoidEnd]
      have front : parts <+: pieces p.split.2 := by
        refine (dropVoidEnd_isPrefix _).trans (List.IsPrefix.trans ?_ (dropVoidEnd_isPrefix _))
        rw [← List.reverse_reverse (dropVoidEnd (pieces p.split.2)), h, List.reverse_cons]
        exact List.prefix_append _ _
      obtain ⟨lead, same⟩ := lead_joinPieces front
      exact ⟨_, found, lead, by rw [lacks, ← steps_pieces, same]⟩

/-- What a path is joined to keeps its lead. -/
theorem lead_join (plain : '/' ∉ name) (named : (⟨name⟩ : Path).IsName) :
    (dir.join ⟨name⟩).split.1 = dir.split.1 := by
  have relative : (⟨name⟩ : Path).isAbsolute = false := by
    simpa [isAbsolute] using head?_of_plain plain
  unfold join
  rw [if_neg (by simp [relative])]
  split
  · next ended =>
      by_cases empty : dir.text = []
      · rw [empty, List.nil_append, named.lead, lead_eq, empty]
        rfl
      · exact lead_append empty (.inl (ended.resolve_left empty))
  · next ended => exact lead_append (not_or.1 ended).1 (.inr rfl)

theorem isIn_join (plain : '/' ∉ name) (named : (⟨name⟩ : Path).IsName) :
    (dir.join ⟨name⟩).IsIn dir name := by
  obtain ⟨before, split, front⟩ := FileSystem.pieces_join dir plain
  have solid : steps [name] = [name] := by
    have whole := (steps_pieces ⟨name⟩).trans named.components
    rwa [pieces_of_plain plain] at whole
  have components : (dir.join ⟨name⟩).components = dir.components ++ [name] := by
    rw [← steps_pieces, split, steps_append, front, solid]
  have lead : (dir.join ⟨name⟩).split.1 = dir.split.1 := lead_join plain named
  obtain ⟨parent, found, same, lacks⟩ := exists_parent (p := dir.join ⟨name⟩) (by simp [components])
  refine ⟨lead, components, ?_, parent, found, same.trans lead, ?_⟩
  · rw [fileName?, components, List.getLast?_concat]
    simp [Option.filter, named.down]
  · rw [lacks, components, List.dropLast_concat]

end Path

/-- Where a sink puts the copies of artifacts whose names the settings make. -/
structure DirectorySink.KeepsPlaces (s : DirectorySink) (config : Config) : Prop where
  named : ∀ source, (Path.ofString (config.artifactName source)).IsName
  inside : ∀ a : Artifact, a.name = config.artifactName a.source →
    (Path.ofString a.name).isAbsolute = false ∧ (s.artifactPath a).IsIn s.root a.name.toList
  /-- Of its source an artifact takes the last component alone. -/
  last : ∀ a b : Artifact, a.name = config.artifactName a.source →
    b.name = config.artifactName b.source →
      (Path.ofString a.source).components.getLast? =
        (Path.ofString b.source).components.getLast? →
        a.name = b.name ∧ s.artifactPath a = s.artifactPath b
  beside : ∀ a : Artifact, a.name = config.artifactName a.source →
    (Path.ofString a.source).fileName?.isSome →
      ∃ dir, (Path.ofString a.source).parent? = some dir ∧
        (DirectorySink.mirrorPath a).IsIn dir a.name.toList

/-- Copies stay where they belong, whatever a source is called and wherever the sink is, as long as
the suffix has no slash and is not made of dots alone. -/
theorem DirectorySink.places_kept (s : DirectorySink) {config : Config}
    (plain : '/' ∉ config.artifactSuffix.toList)
    (solid : ∃ c ∈ config.artifactSuffix.toList, c ≠ '.') : s.KeepsPlaces config := by
  have plainName (source : String) : '/' ∉ (config.artifactName source).toList :=
    Config.plain_artifactName plain source
  have named (source : String) : (Path.ofString (config.artifactName source)).IsName := by
    obtain ⟨c, hc, dot⟩ := solid
    refine Path.isName_of_plain (plainName source) ⟨c, ?_, dot⟩
    simp [Config.artifactName, hc]
  refine ⟨named, fun a ha => ⟨?_, ?_⟩, fun a b ha hb same => ?_, fun a ha file => ?_⟩
  · rw [ha]
    simpa [Path.isAbsolute, Path.ofString] using Path.head?_of_plain (plainName a.source)
  · rw [artifactPath, ha]
    exact Path.isIn_join (plainName a.source) (named a.source)
  · have names : a.name = b.name := by
      rw [ha, hb]
      simp only [Config.artifactName, Path.fileStem?, Path.fileName?, same]
    exact ⟨names, by rw [artifactPath, artifactPath, names]⟩
  · have nonempty : (Path.ofString a.source).components ≠ [] := by
      intro none
      simp [Path.fileName?, none] at file
    obtain ⟨dir, found, -⟩ := Path.exists_parent nonempty
    refine ⟨dir, found, ?_⟩
    rw [mirrorPath, Path.withFileName, if_pos file, found, Option.getD_some, ha]
    exact Path.isIn_join (plainName a.source) (named a.source)

def dottedArtifact : Artifact := ⟨"...autowire.rs", "src//air/./.../", ""⟩

theorem dotted_source_keeps_its_place :
    ('/' ∉ Config.standard.artifactSuffix.toList ∧
        ∃ c ∈ Config.standard.artifactSuffix.toList, c ≠ '.') ∧
      dottedArtifact.name = Config.standard.artifactName dottedArtifact.source ∧
        ∃ dir, (Path.ofString dottedArtifact.source).parent? = some dir ∧
          dir = Path.ofString "src//air" ∧
            (DirectorySink.mirrorPath dottedArtifact).IsIn dir dottedArtifact.name.toList := by
  have plain : '/' ∉ Config.standard.artifactSuffix.toList := by decide
  have solid : ∃ c ∈ Config.standard.artifactSuffix.toList, c ≠ '.' :=
    ⟨'a', by decide +kernel, by decide⟩
  have name : dottedArtifact.name = Config.standard.artifactName dottedArtifact.source := by
    decide +kernel
  have file : (Path.ofString dottedArtifact.source).fileName?.isSome := by decide +kernel
  obtain ⟨dir, found, beside⟩ :=
    (DirectorySink.places_kept (.ofConfig .standard) plain solid).beside dottedArtifact name file
  have there : (Path.ofString dottedArtifact.source).parent? = some (Path.ofString "src//air") := by
    decide +kernel
  exact ⟨⟨plain, solid⟩, name, dir, found, Option.some.inj (found.symm.trans there), beside⟩

end Wiring
