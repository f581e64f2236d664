import Mathlib.Data.List.Forall2
import Wiring.Proofs.Generation.Account

/-!
How accessors are filed. The artifacts of a pass are those of the files with an accessor, in order
of the files. Each holds, after its header, the accessors of its file as they come in the pass, so
every accessor is in one artifact, that of the file of its class.
-/
namespace Wiring

theorem Table.mem_entries_iff {α : Type} {t : Table α} {name : String} {a : α} :
    (name, a) ∈ t.entries ↔ t.find? name = some a := by
  obtain ⟨l, sorted⟩ := t
  simp only [find?]
  induction l with
  | nil => simp
  | cons x rest ih =>
      obtain ⟨k, b⟩ := x
      obtain ⟨first, sorted⟩ := List.pairwise_cons.1 sorted
      rw [lookup_entry, List.mem_cons, ih sorted]
      by_cases hk : name = k
      · subst hk
        simp [lookup_of_lt first, eq_comm]
      · simp [hk]

namespace Text.Marked

@[simp]
theorem toString_fixed (s : String) : (fixed s).toString = s := by
  simp [toString, chars, fixed, Function.comp_def]

@[simp]
theorem toString_given (s : String) : (given s).toString = s := by
  simp [toString, chars, given, Function.comp_def]

theorem toString_append (s t : Marked) : (s ++ t).toString = s.toString ++ t.toString := by
  simp [toString, chars, String.ofList_append]

theorem fixed_append (s t : String) : fixed (s ++ t) = fixed s ++ fixed t := by
  simp [fixed, String.toList_append]

end Text.Marked

open Text.Marked (fixed fixed_append) in
/-- The text of an accessor ends with its last line. -/
theorem Accessor.Subject.text_ends (s : Subject) : ∃ t, s.text = t ++ fixed "\n" := by
  have plain : fixed "(registry)\n    \x7d\n\x7d\n" = _ ++ fixed "\n" :=
    fixed_append "(registry)\n    \x7d\n\x7d" "\n"
  have awaited : fixed "(registry).await\n    \x7d\n\x7d\n" = _ ++ fixed "\n" :=
    fixed_append "(registry).await\n    \x7d\n\x7d" "\n"
  unfold text
  split
  · simp only [asyncImplementation, awaited, ← List.append_assoc]
    exact ⟨_, rfl⟩
  · simp only [syncImplementation, plain, ← List.append_assoc]
    exact ⟨_, rfl⟩

/-- The parts of a list by the values of a function make up the list. -/
theorem perm_flatMap_filter {α β : Type} [DecidableEq β] (f : α → β) {keys : List β} {l : List α}
    (nodup : keys.Nodup) (covered : ∀ x ∈ l, f x ∈ keys) :
    (keys.flatMap fun k => l.filter fun x => f x = k).Perm l := by
  induction keys generalizing l with
  | nil =>
      cases l with
      | nil => simp
      | cons x rest => cases covered x List.mem_cons_self
  | cons k keys ih =>
      obtain ⟨fresh, nodup⟩ := List.nodup_cons.1 nodup
      have others : (keys.flatMap fun k' => l.filter fun x => f x = k') = keys.flatMap fun k' =>
          (l.filter fun x => !decide (f x = k)).filter fun x => f x = k' := by
        refine List.flatMap_congr fun k' hk => ?_
        rw [List.filter_filter]
        refine List.filter_congr fun x _ => ?_
        have hne : k' ≠ k := fun he => fresh (he ▸ hk)
        by_cases hx : f x = k'
        · simp [hx, hne]
        · simp [hx]
      rw [List.flatMap_cons, others]
      refine .trans (.append_left _ (ih nodup fun x hx => ?_))
        (List.filter_append_perm (fun x => decide (f x = k)) l)
      obtain ⟨hl, hk⟩ := List.mem_filter.1 hx
      simpa using (List.mem_cons.1 (covered x hl)).resolve_left (by simpa using hk)

namespace BuildPass

def blocksOf (file : String) (blocks : List (String × String)) : List String :=
  (blocks.filter fun b => b.1 = file).map Prod.snd

theorem find?_foldl_alter (blocks : List (String × String)) (t : Table (List String))
    (file : String) :
    (blocks.foldl (fun t b => t.alter b.1 fun old => old.getD [] ++ [b.2]) t).find? file =
      if blocksOf file blocks = [] then t.find? file
      else some ((t.find? file).getD [] ++ blocksOf file blocks) := by
  induction blocks generalizing t with
  | nil => simp [blocksOf]
  | cons b rest ih =>
      rw [List.foldl_cons, ih, Table.find?_alter]
      by_cases hf : b.1 = file
      · have split : blocksOf file (b :: rest) = b.2 :: blocksOf file rest := by
          simp [blocksOf, hf]
        rw [if_pos hf.symm, split, if_neg (List.cons_ne_nil _ _)]
        subst hf
        split <;> simp_all
      · have skip : blocksOf file (b :: rest) = blocksOf file rest := by
          simp [blocksOf, hf]
        rw [if_neg (Ne.symm hf), skip]

theorem find?_groupBlocks (blocks : List (String × String)) (file : String) :
    (groupBlocks blocks).find? file =
      if blocksOf file blocks = [] then none else some (blocksOf file blocks) := by
  rw [groupBlocks, find?_foldl_alter, Table.find?_empty]
  rfl

/-- A file is in the table of the blocks if there is a block of it, and then with all of these. -/
theorem mem_groupBlocks {blocks : List (String × String)} {file : String} {bs : List String} :
    (file, bs) ∈ (groupBlocks blocks).entries ↔ bs ≠ [] ∧ bs = blocksOf file blocks := by
  rw [Table.mem_entries_iff, find?_groupBlocks]
  split <;> grind

def filedOf (os : List Outcome) : List (String × GeneratedAccessor) :=
  os.filterMap fun o => o.2.toOption.map fun a => (o.1.location.file, a)

theorem blocks_eq (os : List Outcome) :
    blocks os = (filedOf os).map fun x => (x.1, x.2.code) := by
  rw [blocks, filedOf, List.map_filterMap]
  congr 1
  funext o
  obtain ⟨c, r⟩ := o
  cases r <;> rfl

theorem map_snd_filedOf (os : List Outcome) :
    (filedOf os).map Prod.snd = os.filterMap fun o => o.2.toOption := by
  rw [filedOf, List.map_filterMap]
  congr 1
  funext o
  cases o.2 <;> rfl

theorem blocksOf_blocks (os : List Outcome) (file : String) : blocksOf file (blocks os) =
    ((filedOf os).filter fun x => x.1 = file).map fun x => x.2.code := by
  rw [blocks_eq, blocksOf, List.filter_map, List.map_map]
  rfl

/-- `a` is the accessor of class `c`, and `file` is where it belongs. -/
def Belongs (managed : ManagedTypes) (config : Config) (c : AnnotatedClass) :
    String × GeneratedAccessor → Prop
  | (file, a) => c.location.file = file ∧ c.accessor managed config = .ok a

theorem belongs_filedOf {managed : ManagedTypes} {config : Config} {os : List Outcome}
    (made : ∀ c a, (c, .ok a) ∈ os → c.accessor managed config = .ok a) :
    ∃ classes : List AnnotatedClass, classes.Sublist (os.map Prod.fst) ∧
      List.Forall₂ (Belongs managed config) classes (filedOf os) := by
  induction os with
  | nil => exact ⟨[], .slnil, .nil⟩
  | cons o rest ih =>
      obtain ⟨classes, sub, belong⟩ := ih fun c a ha => made c a (List.mem_cons_of_mem _ ha)
      obtain ⟨c, r⟩ := o
      cases r with
      | error e => exact ⟨classes, sub.cons c, belong⟩
      | ok a => exact ⟨c :: classes, sub.cons_cons c,
          .cons ⟨rfl, made c a List.mem_cons_self⟩ belong⟩

theorem keepNew_sublist (seen : List Mark) (classes : List AnnotatedClass) :
    (keepNew seen classes).Sublist classes := by
  induction classes generalizing seen with
  | nil => exact .slnil
  | cons c rest ih =>
      rw [keepNew]
      split
      · exact (ih _).cons c
      · exact (ih _).cons_cons c

/-- The artifacts hold the accessors, each in the one of its file. -/
structure Holds (config : Config) (filed : List (String × GeneratedAccessor))
    (artifacts : List Artifact) : Prop where
  increasing : (artifacts.map Artifact.source).Pairwise (· < ·)
  sources : ∀ file, file ∈ artifacts.map Artifact.source ↔ ∃ a, (file, a) ∈ filed
  names : ∀ x ∈ artifacts, x.name = config.artifactName x.source
  contents : ∀ x ∈ artifacts, x.contents =
    "// @generated by ferrous-autowire from `" ++ x.source ++ "`. Do not edit.\n" ++
      String.join ((filed.filter fun y => y.1 = x.source).map fun y => "\n" ++ y.2.code)
  /-- So what stands between two accessors is a blank line. -/
  lines : ∀ y ∈ filed, ∃ text, y.2.code = text ++ "\n"
  once : (artifacts.flatMap fun x => filed.filter fun y => y.1 = x.source).Perm filed

def filed (p : BuildPass) (config : Config) : List (String × GeneratedAccessor) :=
  filedOf (p.outcomes config)

variable {p : BuildPass} {config : Config}

theorem mem_artifacts_iff {x : Artifact} : x ∈ (p.generate config).artifacts ↔
    ∃ codes, codes ≠ [] ∧ codes = ((p.filed config).filter fun y => y.1 = x.source).map
        (fun y => y.2.code) ∧
      x = ⟨config.artifactName x.source, x.source, BuildPass.contents x.source codes⟩ := by
  rw [generate, List.mem_map]
  constructor
  · rintro ⟨⟨source, codes⟩, he, rfl⟩
    obtain ⟨there, same⟩ := mem_groupBlocks.1 he
    exact ⟨codes, there, same.trans (blocksOf_blocks _ _), rfl⟩
  · rintro ⟨codes, there, same, hx⟩
    exact ⟨(x.source, codes), mem_groupBlocks.2 ⟨there, same.trans (blocksOf_blocks _ _).symm⟩,
      hx.symm⟩

theorem map_source_artifacts : (p.generate config).artifacts.map Artifact.source =
    (groupBlocks (blocks (p.outcomes config))).entries.map Prod.fst := by
  rw [generate, List.map_map]
  rfl

theorem mem_sources_iff {file : String} :
    file ∈ (p.generate config).artifacts.map Artifact.source ↔
      ∃ a, (file, a) ∈ p.filed config := by
  have blank : ((p.filed config).filter fun y => y.1 = file).map (fun y => y.2.code) ≠ [] ↔
      ∃ a, (file, a) ∈ p.filed config := by
    rw [Ne, List.map_eq_nil_iff, List.filter_eq_nil_iff]
    simp
  rw [← blank, List.mem_map]
  constructor
  · rintro ⟨x, hx, rfl⟩
    obtain ⟨codes, there, rfl, -⟩ := mem_artifacts_iff.1 hx
    exact there
  · intro there
    exact ⟨⟨config.artifactName file, file, BuildPass.contents file _⟩,
      mem_artifacts_iff.2 ⟨_, there, rfl, rfl⟩, rfl⟩

theorem belongs_filed : ∃ classes : List AnnotatedClass, classes.Sublist p.classes ∧
    List.Forall₂ (Belongs p.managed config) classes (p.filed config) := by
  have made : ∀ c a, (c, .ok a) ∈ p.outcomes config → c.accessor p.managed config = .ok a :=
    fun _ _ => accessor_of_mem
  obtain ⟨classes, sub, belong⟩ := belongs_filedOf made
  rw [outcomes, map_fst_outcomesFrom] at sub
  exact ⟨classes, sub.trans (keepNew_sublist _ _), belong⟩

/-- A filed accessor is that of a class of its file. -/
theorem exists_outcome_of_mem_filed {y : String × GeneratedAccessor} (h : y ∈ p.filed config) :
    ∃ c, (c, .ok y.2) ∈ p.outcomes config ∧ c.location.file = y.1 := by
  obtain ⟨⟨c, r⟩, hr, hy⟩ := List.mem_filterMap.1 h
  cases r with
  | error e => cases hy
  | ok a =>
      cases hy
      exact ⟨c, hr, rfl⟩

theorem accessor_of_mem_filed {y : String × GeneratedAccessor} (h : y ∈ p.filed config) :
    ∃ c : AnnotatedClass, c.accessor p.managed config = .ok y.2 := by
  obtain ⟨c, made, -⟩ := exists_outcome_of_mem_filed h
  exact ⟨c, accessor_of_mem made⟩

theorem code_ends {c : AnnotatedClass} {managed : ManagedTypes} {a : GeneratedAccessor}
    (h : c.accessor managed config = .ok a) : ∃ text, a.code = text ++ "\n" := by
  obtain ⟨k, -, rfl⟩ := AnnotatedClass.accessor_eq_ok_iff.1 h
  obtain ⟨t, ht⟩ := (c.subject k managed config).text_ends
  exact ⟨t.toString, by rw [ht, Text.Marked.toString_append]; rfl⟩

/-- Every accessor of a pass is in one artifact, once: in that of the file of its class. -/
theorem artifacts_partition_accessors (p : BuildPass) (config : Config) :
    (p.generate config).accessors = (p.filed config).map Prod.snd ∧
      (∃ classes : List AnnotatedClass, classes.Sublist p.classes ∧
        List.Forall₂ (Belongs p.managed config) classes (p.filed config)) ∧
      Holds config (p.filed config) (p.generate config).artifacts := by
  refine ⟨(map_snd_filedOf _).symm, belongs_filed, ?_⟩
  have increasing : ((p.generate config).artifacts.map Artifact.source).Pairwise (· < ·) := by
    rw [map_source_artifacts, List.pairwise_map]
    exact (groupBlocks _).sorted
  refine ⟨increasing, fun file => mem_sources_iff, ?_, ?_, ?_, ?_⟩
  · intro x hx
    obtain ⟨codes, -, -, hx⟩ := mem_artifacts_iff.1 hx
    rw [hx]
  · intro x hx
    obtain ⟨codes, -, rfl, hx⟩ := mem_artifacts_iff.1 hx
    rw [hx, BuildPass.contents, List.map_map]
    rfl
  · intro y hy
    obtain ⟨c, made⟩ := accessor_of_mem_filed hy
    exact code_ends made
  · have nodup : ((p.generate config).artifacts.map Artifact.source).Nodup :=
      increasing.imp fun h => String.ne_of_lt h
    have perm := perm_flatMap_filter (l := p.filed config) Prod.fst nodup fun y hy =>
      mem_sources_iff.2 ⟨y.2, hy⟩
    rwa [List.flatMap_map] at perm

end BuildPass

end Wiring
