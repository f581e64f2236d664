import Wiring.Proofs.Generation.Targets

/-!
What every class of a pass comes to. The classes that count are those whose mark is new. Each of
them comes to an accessor or to an error, in order, and one that is refused takes no name. A further
class with a mark that was seen before changes nothing.
-/
namespace Wiring

theorem Table.alterEntries_getD {α : Type} {name : String} {a b : α} {l : List (String × α)}
    (sorted : l.Pairwise fun x y => x.1 < y.1) (there : l.lookup name = some b) :
    alterEntries name (fun old => old.getD a) l = l := by
  induction l with
  | nil => cases there
  | cons x rest ih =>
      obtain ⟨k, v⟩ := x
      obtain ⟨first, sorted⟩ := List.pairwise_cons.1 sorted
      rw [lookup_entry] at there
      by_cases hk : name = k
      · subst hk
        simp [alterEntries]
      · rw [if_neg hk] at there
        have behind : ¬name < k := by
          intro hlt
          have absent := lookup_of_lt fun e he => String.lt_trans hlt (first e he)
          cases there.symm.trans absent
        simp [alterEntries, behind, hk, ih sorted there]

/-- What stands under a name already stays. -/
theorem Table.insertNew_of_find? {α : Type} {t : Table α} {name : String} {a b : α}
    (there : t.find? name = some b) : t.insertNew name a = t :=
  Table.ext (alterEntries_getD t.sorted there)

/-- A class counts for nothing in the managed types if one before it has its name. -/
theorem ManagedTypes.ofClasses_insert {before after : List AnnotatedClass} {c d : AnnotatedClass}
    (hd : d ∈ before) (named : d.name = c.name) :
    ofClasses (before ++ c :: after) = ofClasses (before ++ after) := by
  have found : (before.find? fun x => x.name = c.name).isSome :=
    List.find?_isSome.2 ⟨d, hd, by simpa using named⟩
  obtain ⟨first, hf⟩ := Option.isSome_iff_exists.1 found
  have there : (ofClasses before).find? c.name = some first.policy := by
    rw [find?_ofClasses, hf]
    rfl
  unfold ofClasses at there ⊢
  rw [List.foldl_append, List.foldl_append, List.foldl_cons, Table.insertNew_of_find? there]

namespace BuildPass

abbrev Outcome := AnnotatedClass × Except GenerationError GeneratedAccessor

/-- The classes that come before every other class of their mark. -/
def firstOfMark (p : BuildPass) : List AnnotatedClass :=
  (p.classes.zipIdx.filter fun x =>
    (p.classes.take x.2).all fun d => mark d ≠ mark x.1).map Prod.fst

/-- If the marks seen are those of the classes before, a class is new where no class ahead of it has
its mark. -/
theorem keepNew_eq {seen : List Mark} {before classes : List AnnotatedClass}
    (marks : ∀ m, m ∈ seen ↔ m ∈ before.map mark) :
    keepNew seen classes = ((classes.zipIdx before.length).filter fun x =>
      ((before ++ classes).take x.2).all fun d => mark d ≠ mark x.1).map Prod.fst := by
  induction classes generalizing seen before with
  | nil => rfl
  | cons c rest ih =>
      have split : before ++ c :: rest = (before ++ [c]) ++ rest := by simp
      have length : before.length + 1 = (before ++ [c]).length := by simp
      have further (m : Mark) :
          m ∈ (before ++ [c]).map mark ↔ m = mark c ∨ m ∈ before.map mark := by
        rw [List.map_append, List.mem_append, or_comm, List.map_singleton, List.mem_singleton]
      rw [keepNew, List.zipIdx_cons, List.filter_cons, List.take_left' rfl]
      by_cases hm : mark c ∈ seen
      · have known : ∀ m, m ∈ seen ↔ m ∈ (before ++ [c]).map mark := by
          intro m
          rw [further, ← marks, or_iff_right_of_imp]
          rintro rfl
          exact hm
        have old := (marks _).1 hm
        rw [if_pos hm, ih known, split, length, if_neg (by simpa using old)]
      · have known : ∀ m, m ∈ mark c :: seen ↔ m ∈ (before ++ [c]).map mark := by
          intro m
          rw [further, List.mem_cons, marks]
        have new := mt (marks _).2 hm
        rw [if_neg hm, ih known, split, length, if_pos (by simpa using new), List.map_cons]

theorem kept_eq_firstOfMark (p : BuildPass) : p.kept = p.firstOfMark := by
  have unseen : ∀ m, m ∈ ([] : List Mark) ↔ m ∈ ([] : List AnnotatedClass).map mark :=
    fun _ => Iff.rfl
  exact keepNew_eq unseen

theorem keepNew_insert {seen : List Mark} {before after : List AnnotatedClass} {c : AnnotatedClass}
    (old : mark c ∈ seen ∨ mark c ∈ before.map mark) :
    keepNew seen (before ++ c :: after) = keepNew seen (before ++ after) := by
  induction before generalizing seen with
  | nil =>
      have hm : mark c ∈ seen := by simpa using old
      rw [List.nil_append, keepNew, if_pos hm, List.nil_append]
  | cons x before ih =>
      rw [List.map_cons, List.mem_cons] at old
      simp only [List.cons_append, keepNew]
      split
      · next hx =>
          refine ih ?_
          obtain hc | here | there := old
          · exact .inl hc
          · exact .inl (here ▸ hx)
          · exact .inr there
      · refine congrArg (x :: ·) (ih ?_)
        rwa [List.mem_cons, or_assoc, or_left_comm]

/-- What class `c` comes to after the classes `before`, with what these came to. -/
inductive Comes (managed : ManagedTypes) (config : Config) (before : List Outcome)
    (c : AnnotatedClass) : Except GenerationError GeneratedAccessor → Prop
  | accessor {a : GeneratedAccessor} (built : c.accessor managed config = .ok a)
      (free : ∀ d b, (d, .ok b) ∈ before → d.location.file = c.location.file →
        b.function ≠ a.function) : Comes managed config before c (.ok a)
  | unbuilt {e : GenerationError} (failed : c.accessor managed config = .error e) :
      Comes managed config before c (.error e)
  | taken {a b : GeneratedAccessor} {d : AnnotatedClass}
      (built : c.accessor managed config = .ok a) (first : (d, .ok b) ∈ before)
      (file : d.location.file = c.location.file) (function : b.function = a.function) :
      Comes managed config before c
        (.error ⟨c.name, c.location, .duplicateAccessor a.function d.name⟩)

theorem Comes.ok_iff {managed : ManagedTypes} {config : Config} {before : List Outcome}
    {c : AnnotatedClass} {r : Except GenerationError GeneratedAccessor} {a : GeneratedAccessor}
    (h : Comes managed config before c r) : r = .ok a ↔ c.accessor managed config = .ok a ∧
      ∀ d b, (d, .ok b) ∈ before → d.location.file = c.location.file →
        b.function ≠ a.function := by
  cases h with
  | accessor built free =>
      constructor
      · rintro ⟨⟩
        exact ⟨built, free⟩
      · intro made
        rw [← built, made.1]
  | unbuilt failed =>
      constructor
      · rintro ⟨⟩
      · intro made
        cases failed.symm.trans made.1
  | taken built first file function =>
      constructor
      · rintro ⟨⟩
      · intro made
        cases built.symm.trans made.1
        exact absurd function (made.2 _ _ first file)

/-- `taken` holds the functions of the accessors among the outcomes, each under its file and with
the class that has it. -/
def Taken.Holds (taken : Taken) (before : List Outcome) : Prop :=
  ∀ file function name, taken.lookup (file, function) = some name ↔
    ∃ d b, (d, .ok b) ∈ before ∧ d.location.file = file ∧ b.function = function ∧ d.name = name

section Run

variable {managed : ManagedTypes} {config : Config} {taken : Taken} {before : List Outcome}
  {c : AnnotatedClass} {classes : List AnnotatedClass}

theorem comes_outcome (holds : taken.Holds before) :
    Comes managed config before c (outcome managed config taken c) := by
  unfold outcome
  cases hc : c.accessor managed config with
  | error e => exact .unbuilt hc
  | ok a =>
      simp only [bind, Except.bind]
      split
      · next existing hl =>
          obtain ⟨d, b, hb, file, function, rfl⟩ := (holds _ _ _).1 hl
          exact .taken hc hb file function
      · next hl =>
          refine .accessor hc fun d b hb file same => ?_
          have found := (holds c.location.file a.function d.name).2 ⟨d, b, hb, file, same, rfl⟩
          cases hl.symm.trans found

theorem holds_after (holds : taken.Holds before) :
    (taken.after c (outcome managed config taken c)).Holds
      (before ++ [(c, outcome managed config taken c)]) := by
  intro file function name
  have came : Comes managed config before c (outcome managed config taken c) :=
    comes_outcome holds
  cases ho : outcome managed config taken c with
  | error e =>
      rw [Taken.after, holds]
      simp
  | ok a =>
      rw [ho] at came
      cases came with
      | accessor built free =>
          rw [Taken.after, List.lookup_cons]
          by_cases here : (file, function) = (c.location.file, a.function)
          · obtain ⟨rfl, rfl⟩ := Prod.mk.inj here
            simp only [beq_self_eq_true, Option.some.injEq, List.mem_append, List.mem_singleton]
            constructor
            · intro hn
              exact ⟨c, a, .inr rfl, rfl, rfl, hn⟩
            · rintro ⟨d, b, hb | hb, file, same, hn⟩
              · exact absurd same (free d b hb file)
              · cases hb
                exact hn
          · rw [beq_eq_false_iff_ne.2 here, holds]
            simp only [List.mem_append, List.mem_singleton]
            constructor
            · rintro ⟨d, b, hb, rest⟩
              exact ⟨d, b, .inl hb, rest⟩
            · rintro ⟨d, b, hb | hb, file, same, hn⟩
              · exact ⟨d, b, hb, file, same, hn⟩
              · cases hb
                subst file
                subst same
                exact absurd rfl here

/-- Each class of a run comes to what its turn says. -/
theorem comes_of_outcomesFrom (holds : taken.Holds before) {front after : List Outcome}
    {r : Except GenerationError GeneratedAccessor}
    (split : outcomesFrom managed config taken classes = front ++ (c, r) :: after) :
    Comes managed config (before ++ front) c r := by
  induction classes generalizing taken before front with
  | nil => simp [outcomesFrom] at split
  | cons x rest ih =>
      rw [outcomesFrom] at split
      cases front with
      | nil =>
          obtain ⟨here, -⟩ := List.cons.inj split
          obtain ⟨rfl, rfl⟩ := Prod.mk.inj here
          rw [List.append_nil]
          exact comes_outcome holds
      | cons y front =>
          rw [List.cons_append] at split
          obtain ⟨rfl, rest⟩ := List.cons.inj split
          rw [List.append_cons]
          exact ih (holds_after holds) rest

theorem map_fst_outcomesFrom :
    (outcomesFrom managed config taken classes).map Prod.fst = classes := by
  induction classes generalizing taken with
  | nil => rfl
  | cons c rest ih => rw [outcomesFrom, List.map_cons, ih]

end Run

/-- Of an error, the class and the place that it is about are those of the class in error. -/
theorem named_of_accessor {managed : ManagedTypes} {config : Config} {c : AnnotatedClass}
    {e : GenerationError} (h : c.accessor managed config = .error e) :
    e.className = c.name ∧ e.location = c.location := by
  unfold AnnotatedClass.accessor at h
  split at h <;> cases h
  exact ⟨rfl, rfl⟩

def Outcome.Named (o : Outcome) : Prop :=
  match o.2 with
  | .ok a => a.className = o.1.name
  | .error e => e.className = o.1.name ∧ e.location = o.1.location

theorem Comes.named {managed : ManagedTypes} {config : Config} {before : List Outcome}
    {c : AnnotatedClass} {r : Except GenerationError GeneratedAccessor}
    (h : Comes managed config before c r) : Outcome.Named (c, r) := by
  cases h with
  | accessor built => exact (AnnotatedClass.accessor_spec built).1
  | unbuilt failed => exact named_of_accessor failed
  | taken => exact ⟨rfl, rfl⟩

def Outcome.Apart (x y : Outcome) : Prop :=
  ∀ a b, x.2 = .ok a → y.2 = .ok b → x.1.location.file = y.1.location.file →
    a.function ≠ b.function

theorem pairwise_of_splits {α : Type} {R : α → α → Prop} {l : List α}
    (h : ∀ before x after, l = before ++ x :: after → ∀ y ∈ before, R y x) : l.Pairwise R := by
  rw [List.pairwise_iff_getElem]
  intro i j hi hj hlt
  refine h (l.take j) l[j] (l.drop (j + 1)) ?_ l[i] ?_
  · rw [← List.drop_eq_getElem_cons hj, List.take_append_drop]
  · exact List.mem_take_iff_getElem.2 ⟨i, by omega, rfl⟩

/-- What was generated accounts for the classes of the pass by the outcomes given: these are one for
each class that is the first of its mark and in order, and the accessors and the errors are the two
parts that they fall into. -/
structure Accounts (p : BuildPass) (config : Config) (g : Generation) (os : List Outcome) :
    Prop where
  classes : os.map Prod.fst = p.firstOfMark
  accessors : g.accessors = os.filterMap fun o => o.2.toOption
  errors : g.errors = os.filterMap fun
    | (_, .error e) => some e
    | (_, .ok _) => none
  named : ∀ o ∈ os, o.Named
  each : ∀ before c r after, os = before ++ (c, r) :: after → Comes p.managed config before c r
  made : ∀ before c r after, os = before ++ (c, r) :: after → ∀ a, r = .ok a ↔
    c.accessor p.managed config = .ok a ∧ ∀ d b, (d, .ok b) ∈ before →
      d.location.file = c.location.file → b.function ≠ a.function
  apart : os.Pairwise Outcome.Apart

theorem accounts_outcomes (p : BuildPass) (config : Config) :
    p.Accounts config (p.generate config) (p.outcomes config) := by
  have each : ∀ before c r after, p.outcomes config = before ++ (c, r) :: after →
      Comes p.managed config before c r := by
    intro before c r after split
    have untaken : Taken.Holds [] [] := by simp [Taken.Holds]
    exact comes_of_outcomesFrom untaken split
  have made := fun before c r after split a =>
    (each before c r after split).ok_iff (a := a)
  refine ⟨?_, rfl, rfl, fun o ho => ?_, each, made, pairwise_of_splits ?_⟩
  · rw [outcomes, map_fst_outcomesFrom, kept_eq_firstOfMark]
  · obtain ⟨before, after, split⟩ := List.append_of_mem ho
    exact (each before o.1 o.2 after split).named
  · rintro before ⟨c, r⟩ after split ⟨d, s⟩ hd b a rfl rfl file
    exact ((made before c _ after split a).1 rfl).2 d b hd file

/-- A class whose mark has been seen adds nothing to a pass. -/
theorem generate_insert {before after : List AnnotatedClass} {external : ManagedTypes}
    {c d : AnnotatedClass} (config : Config) (hd : d ∈ before) (same : mark d = mark c) :
    generate ⟨before ++ c :: after, external⟩ config =
      generate ⟨before ++ after, external⟩ config := by
  have named : d.name = c.name := congrArg (fun m : Mark => m.1.name) same
  have seen : mark c ∈ before.map mark := same ▸ List.mem_map_of_mem hd
  have outcomes : outcomes ⟨before ++ c :: after, external⟩ config =
      outcomes ⟨before ++ after, external⟩ config := by
    simp only [BuildPass.outcomes, managed, kept, keepNew_insert (.inr seen),
      ManagedTypes.ofClasses_insert hd named]
  simp only [generate, outcomes]

/-- Every class of a pass is accounted for, and a further copy of one that is there is not. -/
theorem every_class_accounted (p : BuildPass) (config : Config) :
    (∃ os, p.Accounts config (p.generate config) os) ∧
      ∀ before after c d, p.classes = before ++ after → d ∈ before → mark d = mark c →
        generate ⟨before ++ c :: after, p.external⟩ config = p.generate config := by
  refine ⟨⟨_, accounts_outcomes p config⟩, ?_⟩
  intro before after c d split hd same
  rw [generate_insert config hd same, ← split]

def clientPass : BuildPass where
  classes := [
    ⟨"HttpClient", ⟨"src/net.rs", 1, 1⟩, .silent, some ⟨.function "new", false, false, []⟩⟩,
    ⟨"Cache", ⟨"src/net.rs", 2, 1⟩, .silent, none⟩,
    ⟨"HTTPClient", ⟨"src/net.rs", 3, 1⟩, .silent, some ⟨.function "new", false, false, []⟩⟩]
  external := .empty

/-- Nothing changes if the class in error is there once more, and could now be made. -/
theorem clients_with_a_second_cache :
    (∃ os, clientPass.Accounts .standard (clientPass.generate .standard) os) ∧
      (clientPass.generate .standard).accessors.map GeneratedAccessor.className = ["HttpClient"] ∧
      (clientPass.generate .standard).errors.map GenerationError.fault =
        [.noUsableConstructor .absent, .duplicateAccessor "http_client" "HttpClient"] ∧
      generate ⟨clientPass.classes ++
          [⟨"Cache", ⟨"src/net.rs", 9, 9⟩, ⟨some .singleton, .nowhere⟩,
            some ⟨.function "new", false, false, []⟩⟩], .empty⟩ .standard =
        clientPass.generate .standard := by
  obtain ⟨accounted, copied⟩ := every_class_accounted clientPass .standard
  refine ⟨accounted, by decide +kernel, by decide +kernel, ?_⟩
  exact copied clientPass.classes [] _
    ⟨"Cache", ⟨"src/net.rs", 2, 1⟩, .silent, none⟩ (List.append_nil _).symm
    (by simp [clientPass]) (by rfl)

end BuildPass

end Wiring
