import Wiring.Proofs.Generation.Filing

/-!
What an artifact depends on. The artifact of a file is made from the classes of the file, and of the
rest of the pass only from the policies of the types that these mention. So a pass may be taken
apart as long as classes that share a mentioned name also share their policy.
-/
namespace Wiring

theorem Table.find?_entries {α : Type} (t : Table α) (name : String) :
    t.entries.find? (fun e => e.1 = name) = (t.find? name).map fun a => (name, a) := by
  rw [find?]
  induction t.entries with
  | nil => rfl
  | cons x rest ih =>
      obtain ⟨k, a⟩ := x
      rw [lookup_entry]
      by_cases hk : name = k
      · subst hk
        simp
      · simp [hk, Ne.symm hk, ih]

theorem Table.find?_foldl_insertNew {α : Type} (l : List (String × α)) (t : Table α)
    (name : String) : (l.foldl (fun acc e => acc.insertNew e.1 e.2) t).find? name =
      (t.find? name).or (l.lookup name) := by
  induction l generalizing t with
  | nil => simp
  | cons x rest ih =>
      obtain ⟨k, a⟩ := x
      rw [List.foldl_cons, ih, find?_insertNew, lookup_entry]
      by_cases hk : name = k
      · subst hk
        cases t.find? name <;> simp
      · simp [hk]

/-- What the other table holds counts where the first holds nothing. -/
theorem Table.find?_extend {α : Type} (t other : Table α) (name : String) :
    (t.extend other).find? name = (t.find? name).or (other.find? name) :=
  find?_foldl_insertNew other.entries t name

/-- The name of a type that the declared type of a parameter may ask for. -/
def Parameter.mentioned? (x : Parameter) : Option String :=
  match x.type with
  | .named name | .optional (.named name) => some name
  | _ => none

theorem Parameter.mentioned?_of_wanted? {x : Parameter} {name : String} {isNullable : Bool}
    (h : x.wanted? = some (name, isNullable)) : x.mentioned? = some name := by
  unfold wanted? at h
  unfold mentioned?
  split at h <;> grind

theorem Parameter.dependency?_congr {x : Parameter} {m m' : ManagedTypes}
    (agree : ∀ name, x.mentioned? = some name → m.find? name = m'.find? name) :
    x.dependency? m = x.dependency? m' := by
  unfold dependency?
  cases hw : x.wanted? with
  | none => rfl
  | some wanted =>
      simp only [Option.bind_eq_bind, Option.bind_some]
      rw [agree _ (mentioned?_of_wanted? hw)]

def AnnotatedClass.mentioned (c : AnnotatedClass) : List String :=
  (c.constructor.elim [] Constructor.params).filterMap Parameter.mentioned?

namespace AnnotatedClass

variable {c : AnnotatedClass} {m m' : ManagedTypes}

theorem awaitedParameter?_congr {params : List Parameter}
    (same : ∀ x ∈ params, x.dependency? m = x.dependency? m') :
    awaitedParameter? m params = awaitedParameter? m' params := by
  induction params with
  | nil => rfl
  | cons x rest ih =>
      obtain ⟨first, others⟩ := List.forall_mem_cons.1 same
      simp only [awaitedParameter?, List.findSome?_cons, first] at ih ⊢
      rw [ih others]

theorem dependency?_congr {k : Constructor} (hk : c.constructor = some k)
    (agree : ∀ name ∈ c.mentioned, m.find? name = m'.find? name) :
    ∀ x ∈ k.params, x.dependency? m = x.dependency? m' := by
  intro x hx
  refine Parameter.dependency?_congr fun name hn => agree name ?_
  rw [mentioned, hk]
  exact List.mem_filterMap.2 ⟨x, hx, hn⟩

theorem constructor_of_callable {k : Constructor} (h : c.callable m = .ok k) :
    c.constructor = some k := by
  unfold callable at h
  split at h
  · cases h
  · next hk =>
      split at h
      · cases h
      · split at h
        · exact hk.trans (congrArg some (Except.ok.inj h))
        · split at h
          · cases h
          · exact hk.trans (congrArg some (Except.ok.inj h))

/-- The accessor of a class depends on the managed types that it mentions. -/
theorem accessor_congr (config : Config)
    (agree : ∀ name ∈ c.mentioned, m.find? name = m'.find? name) :
    c.accessor m config = c.accessor m' config := by
  have callable : c.callable m = c.callable m' := by
    unfold AnnotatedClass.callable
    cases hk : c.constructor with
    | none => rfl
    | some k => simp only [awaitedParameter?_congr (dependency?_congr hk agree)]
  have subject : ∀ k, c.constructor = some k → c.subject k m config = c.subject k m' config := by
    intro k hk
    have arguments : k.params.map (Accessor.argument k.style m config.placeholderHeuristics) =
        k.params.map (Accessor.argument k.style m' config.placeholderHeuristics) := by
      refine List.map_congr_left fun x hx => ?_
      rw [Accessor.argument, Accessor.source, dependency?_congr hk agree x hx]
      rfl
    rw [AnnotatedClass.subject, arguments]
    rfl
  unfold accessor
  rw [callable]
  cases hc : c.callable m' with
  | error fault => rfl
  | ok k => simp only [subject k (constructor_of_callable hc)]

end AnnotatedClass

def Generation.artifact? (g : Generation) (file : String) : Option Artifact :=
  g.artifacts.find? fun x => x.source = file

namespace BuildPass

def inFile (file : String) (classes : List AnnotatedClass) : List AnnotatedClass :=
  classes.filter fun c => c.location.file = file

theorem inFile_keepNew {file : String} {seen seen' : List Mark} {classes : List AnnotatedClass}
    (same : ∀ m : Mark, m.1.file = file → (m ∈ seen ↔ m ∈ seen')) :
    inFile file (keepNew seen classes) = keepNew seen' (inFile file classes) := by
  induction classes generalizing seen seen' with
  | nil => rfl
  | cons c rest ih =>
      by_cases hf : c.location.file = file
      · have split : inFile file (c :: rest) = c :: inFile file rest := by simp [inFile, hf]
        rw [split, keepNew, keepNew]
        by_cases hm : mark c ∈ seen
        · rw [if_pos hm, if_pos ((same _ hf).1 hm), ih same]
        · have further : ∀ m : Mark, m.1.file = file →
              (m ∈ mark c :: seen ↔ m ∈ mark c :: seen') := by
            intro m hm
            rw [List.mem_cons, List.mem_cons, same m hm]
          rw [if_neg hm, if_neg (mt (same _ hf).2 hm), ← ih further]
          simp [inFile, hf]
      · have skip : inFile file (c :: rest) = inFile file rest := by simp [inFile, hf]
        rw [skip, keepNew]
        split
        · exact ih same
        · have further : ∀ m : Mark, m.1.file = file → (m ∈ mark c :: seen ↔ m ∈ seen') := by
            intro m hm
            have other : m ≠ mark c := fun he => hf (hm ▸ he ▸ rfl)
            rw [List.mem_cons, or_iff_right other, same m hm]
          rw [← ih further]
          simp [inFile, hf]

section Run

variable {m m' : ManagedTypes} {config : Config} {taken taken' : Taken} {c : AnnotatedClass}
  {file : String}

theorem outcome_congr (made : c.accessor m config = c.accessor m' config)
    (same : ∀ function, taken.lookup (c.location.file, function) =
      taken'.lookup (c.location.file, function)) :
    outcome m config taken c = outcome m' config taken' c := by
  simp only [outcome, made, same]

/-- The functions of one file are taken by the classes of that file. -/
theorem lookup_after_of_ne (r : Except GenerationError GeneratedAccessor) {function : String}
    (other : c.location.file ≠ file) :
    (taken.after c r).lookup (file, function) = taken.lookup (file, function) := by
  cases r with
  | error e => rfl
  | ok a =>
      have hne : ((file, function) == (c.location.file, a.function)) = false := by
        rw [beq_eq_false_iff_ne]
        rintro ⟨⟩
        exact other rfl
      rw [Taken.after, List.lookup_cons, hne]

theorem lookup_after_congr (r : Except GenerationError GeneratedAccessor)
    (same : ∀ function, taken.lookup (file, function) = taken'.lookup (file, function))
    (function : String) :
    (taken.after c r).lookup (file, function) = (taken'.after c r).lookup (file, function) := by
  cases r with
  | error e => exact same function
  | ok a => rw [Taken.after, Taken.after, List.lookup_cons, List.lookup_cons, same]

/-- What the classes of one file come to in a run, they come to in a run of their own. -/
theorem filter_outcomesFrom {classes : List AnnotatedClass}
    (made : ∀ c ∈ inFile file classes, c.accessor m config = c.accessor m' config)
    (same : ∀ function, taken.lookup (file, function) = taken'.lookup (file, function)) :
    (outcomesFrom m config taken classes).filter (fun o => o.1.location.file = file) =
      outcomesFrom m' config taken' (inFile file classes) := by
  induction classes generalizing taken taken' with
  | nil => rfl
  | cons c rest ih =>
      by_cases hf : c.location.file = file
      · have split : inFile file (c :: rest) = c :: inFile file rest := by simp [inFile, hf]
        rw [split] at made ⊢
        obtain ⟨first, made⟩ := List.forall_mem_cons.1 made
        have here : outcome m config taken c = outcome m' config taken' c :=
          outcome_congr first fun function => by rw [hf, same]
        rw [outcomesFrom, outcomesFrom, List.filter_cons_of_pos (by simpa using hf), here,
          ih made (lookup_after_congr _ same)]
      · have skip : inFile file (c :: rest) = inFile file rest := by simp [inFile, hf]
        rw [skip] at made ⊢
        rw [outcomesFrom, List.filter_cons_of_neg (by simpa using hf)]
        exact ih made fun function => (lookup_after_of_ne _ hf).trans (same function)

end Run

theorem filter_filedOf (os : List Outcome) (file : String) :
    (filedOf os).filter (fun x => x.1 = file) =
      filedOf (os.filter fun o => o.1.location.file = file) := by
  rw [filedOf, filedOf, List.filter_filterMap, List.filterMap_filter]
  congr 1
  funext o
  cases o.2.toOption with
  | none => simp
  | some a => by_cases hf : o.1.location.file = file <;> simp [hf]

/-- A file has an artifact if it has an accessor, and the artifact is made from its accessors. -/
theorem artifact?_generate (p : BuildPass) (config : Config) (file : String) :
    (p.generate config).artifact? file =
      if (p.filed config).filter (fun x => x.1 = file) = [] then none
      else some ⟨config.artifactName file, file, contents file
        (((p.filed config).filter fun x => x.1 = file).map fun x => x.2.code)⟩ := by
  have found : (groupBlocks (blocks (p.outcomes config))).entries.find? (fun e => e.1 = file) =
      _ := Table.find?_entries _ file
  have none : blocksOf file (blocks (p.outcomes config)) = [] ↔
      (p.filed config).filter (fun x => x.1 = file) = [] := by
    rw [blocksOf_blocks, List.map_eq_nil_iff]
    rfl
  rw [find?_groupBlocks, if_congr none rfl rfl, blocksOf_blocks] at found
  rw [Generation.artifact?, generate, List.find?_map]
  refine (congrArg (Option.map _) found).trans ?_
  split <;> rfl

def mentionedIn (p : BuildPass) (file : String) : List String :=
  (inFile file p.classes).flatMap AnnotatedClass.mentioned

/-- Two passes agree on a file: they declare the same classes in it, and manage in the same way what
these mention. -/
structure Agree (p q : BuildPass) (file : String) : Prop where
  classes : inFile file p.classes = inFile file q.classes
  managed : ∀ name ∈ p.mentionedIn file, p.managed.find? name = q.managed.find? name

variable {p q : BuildPass} {file : String}

theorem Agree.artifact? (agree : Agree p q file) (config : Config) :
    (p.generate config).artifact? file = (q.generate config).artifact? file := by
  have kept : inFile file p.kept = inFile file q.kept := by
    rw [kept, kept, inFile_keepNew fun m _ => Iff.rfl, agree.classes,
      ← inFile_keepNew fun m _ => Iff.rfl]
  have made : ∀ c ∈ inFile file p.kept,
      c.accessor p.managed config = c.accessor q.managed config := by
    intro c hc
    obtain ⟨there, hf⟩ := List.mem_filter.1 hc
    have declared : c ∈ inFile file p.classes :=
      List.mem_filter.2 ⟨(keepNew_sublist _ _).subset there, hf⟩
    refine AnnotatedClass.accessor_congr config fun name hn => agree.managed name ?_
    exact List.mem_flatMap.2 ⟨c, declared, hn⟩
  have filed : (p.filed config).filter (fun x => x.1 = file) =
      (q.filed config).filter fun x => x.1 = file := by
    rw [BuildPass.filed, BuildPass.filed, filter_filedOf, filter_filedOf, outcomes, outcomes,
      filter_outcomesFrom made fun function => rfl, kept,
      ← filter_outcomesFrom (fun c _ => rfl) fun function => rfl]
  rw [artifact?_generate, artifact?_generate, filed]

/-- Of what a pass manages, its classes come before what is managed elsewhere. -/
theorem find?_managed_eq (p : BuildPass) (name : String) : p.managed.find? name =
    ((p.classes.find? fun c => c.name = name).map AnnotatedClass.policy).or
      (p.external.find? name) := by
  rw [managed, Table.find?_extend, ManagedTypes.find?_ofClasses]

/-- Classes that share a name have one policy, if the file mentions the name. -/
def OnePolicy (p : BuildPass) (file : String) : Prop :=
  ∀ c ∈ p.classes, ∀ d ∈ p.classes, c.name = d.name → c.name ∈ p.mentionedIn file →
    c.policy = d.policy

theorem OnePolicy.find?_managed (one : p.OnePolicy file) {c : AnnotatedClass} (hc : c ∈ p.classes)
    (mentioned : c.name ∈ p.mentionedIn file) : p.managed.find? c.name = some c.policy := by
  have found : (p.classes.find? fun d => d.name = c.name).isSome :=
    List.find?_isSome.2 ⟨c, hc, decide_eq_true rfl⟩
  obtain ⟨first, hf⟩ := Option.isSome_iff_exists.1 found
  have named : first.name = c.name := by simpa using List.find?_some hf
  rw [BuildPass.find?_managed_eq, hf, Option.map_some, Option.some_or,
    one first (List.mem_of_find?_eq_some hf) c hc named (named ▸ mentioned)]

theorem find?_managed_of_absent {name : String} (absent : ∀ c ∈ p.classes, c.name ≠ name) :
    p.managed.find? name = p.external.find? name := by
  have none : (p.classes.find? fun c => c.name = name) = none := by simpa using absent
  rw [find?_managed_eq, none, Option.map_none, Option.none_or]

/-- Pass `q` has some of the classes of `p`, those of the file among them and in order, and declares
the others external. -/
structure Moves (p q : BuildPass) (file : String) : Prop where
  classes : inFile file p.classes = inFile file q.classes
  stay : ∀ c ∈ q.classes, c ∈ p.classes
  moved : ∀ c ∈ p.classes, c ∉ q.classes → q.external.find? c.name = some c.policy
  external : ∀ name, (∀ c ∈ p.classes, c.name ≠ name) →
    q.external.find? name = p.external.find? name

theorem mentionedIn_congr (same : inFile file p.classes = inFile file q.classes) :
    p.mentionedIn file = q.mentionedIn file := by
  rw [mentionedIn, mentionedIn, same]

theorem Moves.agree (moves : Moves p q file) (one : p.OnePolicy file) : Agree p q file := by
  refine ⟨moves.classes, fun name mentioned => ?_⟩
  have oneLeft : q.OnePolicy file := by
    intro c hc d hd named hm
    rw [← mentionedIn_congr moves.classes] at hm
    exact one c (moves.stay c hc) d (moves.stay d hd) named hm
  by_cases called : ∃ c ∈ p.classes, c.name = name
  · obtain ⟨c, hc, rfl⟩ := called
    rw [one.find?_managed hc mentioned]
    by_cases left : ∃ d ∈ q.classes, d.name = c.name
    · obtain ⟨d, hd, named⟩ := left
      rw [one c hc d (moves.stay d hd) named.symm mentioned, ← named,
        oneLeft.find?_managed hd (mentionedIn_congr moves.classes ▸ named ▸ mentioned)]
    · have absent : ∀ d ∈ q.classes, d.name ≠ c.name := fun d hd named => left ⟨d, hd, named⟩
      rw [find?_managed_of_absent absent, moves.moved c hc fun hq => absent c hq rfl]
  · have absent : ∀ c ∈ p.classes, c.name ≠ name := fun c hc named => called ⟨c, hc, named⟩
    have left : ∀ c ∈ q.classes, c.name ≠ name := fun c hc => absent c (moves.stay c hc)
    rw [find?_managed_of_absent absent, find?_managed_of_absent left, moves.external name absent]

/-- Pass `q` has the classes of `p`, those of the file in order. -/
structure Reorders (p q : BuildPass) (file : String) : Prop where
  classes : inFile file p.classes = inFile file q.classes
  perm : p.classes.Perm q.classes
  external : p.external = q.external

theorem Reorders.moves (reorders : Reorders p q file) : Moves p q file where
  classes := reorders.classes
  stay := fun _ hc => reorders.perm.mem_iff.2 hc
  moved := fun _ hc gone => absurd (reorders.perm.mem_iff.1 hc) gone
  external := fun _ _ => by rw [reorders.external]

/-- The classes of a pass that are declared in the file, or bear a name that it mentions. -/
def related (p : BuildPass) (file : String) : List AnnotatedClass :=
  p.classes.filter fun c => c.location.file = file ∨ c.name ∈ p.mentionedIn file

/-- The passes differ at most by classes that have nothing to do with the file. -/
structure Pads (p q : BuildPass) (file : String) : Prop where
  related : p.related file = q.related file
  external : p.external = q.external

theorem inFile_related (p : BuildPass) (file : String) :
    inFile file (p.related file) = inFile file p.classes := by
  rw [related, inFile, inFile, List.filter_filter]
  refine List.filter_congr fun c _ => ?_
  by_cases hf : c.location.file = file <;> simp [hf]

theorem find?_related {name : String} (mentioned : name ∈ p.mentionedIn file) :
    ((p.related file).find? fun c => c.name = name) = p.classes.find? fun c => c.name = name := by
  rw [related, List.find?_filter]
  congr 1
  funext c
  by_cases named : c.name = name
  · simp [named, mentioned]
  · simp [named]

theorem Pads.agree (pads : Pads p q file) : Agree p q file := by
  have classes : inFile file p.classes = inFile file q.classes := by
    rw [← inFile_related, pads.related, inFile_related]
  refine ⟨classes, fun name mentioned => ?_⟩
  rw [find?_managed_eq, find?_managed_eq, ← find?_related mentioned, pads.related,
    find?_related (mentionedIn_congr classes ▸ mentioned), pads.external]

/-- The artifact of a file is the same in two passes that agree on the file. They do if one has in
addition what is unrelated to the file; and if classes that share a name share their policy, also if
one has the classes in another order, or has only some of them and the others external. -/
theorem artifact_local (p q : BuildPass) (config : Config) (file : String)
    (alike : Agree p q file ∨ Pads p q file ∨
      p.OnePolicy file ∧ (Reorders p q file ∨ Moves p q file)) :
    (p.generate config).artifact? file = (q.generate config).artifact? file := by
  obtain agree | pads | ⟨one, reorders | moves⟩ := alike
  · exact agree.artifact? config
  · exact pads.agree.artifact? config
  · exact (reorders.moves.agree one).artifact? config
  · exact (moves.agree one).artifact? config

def reportPass (before : List AnnotatedClass) (external : ManagedTypes) : BuildPass where
  classes := before ++ [⟨"Report", ⟨"src/report.rs", 1, 1⟩, ⟨some .singleton, .nowhere⟩,
    some ⟨.function "new", false, false, [⟨"clock", .named "Clock", .positional, true, none⟩]⟩⟩]
  external := external

def wallClock : AnnotatedClass where
  name := "Clock"
  location := ⟨"src/wall.rs", 1, 1⟩
  directive := ⟨some .factory, .nowhere⟩
  constructor := some ⟨.function "new", false, false, []⟩

def remoteClock : AnnotatedClass where
  name := "Clock"
  location := ⟨"src/remote.rs", 1, 1⟩
  directive := ⟨some .factoryAsync, .nowhere⟩
  constructor := some ⟨.function "new", false, false, []⟩

/-- The first clock decides whether there is a report at all. -/
theorem report_changes_with_the_order_of_clocks :
    (reportPass [wallClock, remoteClock] .empty).classes.Perm
        (reportPass [remoteClock, wallClock] .empty).classes ∧
      (∀ file, inFile file (reportPass [wallClock, remoteClock] .empty).classes =
        inFile file (reportPass [remoteClock, wallClock] .empty).classes) ∧
      ((reportPass [wallClock, remoteClock] .empty).generate .standard).artifact? "src/report.rs" ≠
        ((reportPass [remoteClock, wallClock] .empty).generate .standard).artifact?
          "src/report.rs" := by
  refine ⟨.swap _ _ _, fun file => ?_, by decide +kernel⟩
  by_cases wall : wallClock.location.file = file
  · subst wall
    decide
  · simp [reportPass, inFile, List.filter_cons, wall]

/-- With one clock, the report is the same where the clock is managed elsewhere. -/
theorem report_with_its_clock_elsewhere :
    (reportPass [wallClock] .empty).OnePolicy "src/report.rs" ∧
      Moves (reportPass [wallClock] .empty)
        (reportPass [] (Table.empty.insert "Clock" .factory)) "src/report.rs" ∧
      ((reportPass [wallClock] .empty).generate .standard).artifact? "src/report.rs" ≠ none ∧
      ((reportPass [wallClock] .empty).generate .standard).artifact? "src/report.rs" =
        ((reportPass [] (Table.empty.insert "Clock" .factory)).generate .standard).artifact?
          "src/report.rs" := by
  have one : (reportPass [wallClock] .empty).OnePolicy "src/report.rs" := by
    unfold OnePolicy
    decide +kernel
  have moves : Moves (reportPass [wallClock] .empty)
      (reportPass [] (Table.empty.insert "Clock" .factory)) "src/report.rs" := by
    refine ⟨by decide +kernel, by decide +kernel, by decide +kernel, fun name absent => ?_⟩
    have other : name ≠ "Clock" := (absent wallClock List.mem_cons_self).symm
    simp [reportPass, Table.insert, Table.find?_alter, other]
  exact ⟨one, moves, by decide +kernel, artifact_local _ _ _ _ (.inr (.inr ⟨one, .inr moves⟩))⟩

end BuildPass

end Wiring
