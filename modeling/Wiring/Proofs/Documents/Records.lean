import Mathlib.Data.List.Nodup
import Wiring.Proofs.Documents.Assembly
import Wiring.Json.Shape

/-!
Documents and what they say. A document means a value if it can be written and is read to that value
wherever there is room for all its levels, and nowhere else. What texts, words, lists and records
say is what their parts say.
-/
namespace Wiring.Json

@[simp] theorem depth_ofString (s : String) : (ofString s).depth = 0 := rfl

@[simp] theorem depth_ofNat (n : Nat) : (ofNat n).depth = 0 := rfl

@[simp] theorem depth_bool (b : Bool) : (Json.bool b).depth = 0 := rfl

@[simp] theorem spelled_ofString (s : String) : (ofString s).Spelled := trivial

@[simp] theorem spelled_ofNat (n : Nat) : (ofNat n).Spelled := fun _ given => by cases given

@[simp] theorem spelled_bool (b : Bool) : (Json.bool b).Spelled := trivial

theorem depthOfItems_le_iff {items : List Json} {n : Nat} :
    depthOfItems items ≤ n ↔ ∀ d ∈ items, d.depth ≤ n := by
  induction items with
  | nil => simp [depthOfItems]
  | cons d items ih => rw [depthOfItems, Nat.max_le, ih, List.forall_mem_cons]

theorem depth_array_le_iff {items : List Json} {n : Nat} :
    (Json.array items).depth ≤ n + 1 ↔ ∀ d ∈ items, d.depth ≤ n := by
  rw [depth, Nat.add_le_add_iff_right, depthOfItems_le_iff]

theorem depth_ofFields_le_iff {l : List (String × Json)} {n : Nat} :
    (ofFields l).depth ≤ n + 1 ↔ ∀ f ∈ l, f.2.depth ≤ n := by
  rw [ofFields, depth, Nat.add_le_add_iff_right]
  induction l with
  | nil => simp [depthOfMembers]
  | cons f l ih => rw [List.map_cons, depthOfMembers, Nat.max_le, ih, List.forall_mem_cons]

theorem spelled_array_iff {items : List Json} :
    (Json.array items).Spelled ↔ ∀ d ∈ items, d.Spelled := by
  rw [Spelled]
  induction items with
  | nil => simp [SpelledItems]
  | cons d items ih => simp [SpelledItems, ih]

theorem spelled_ofFields_iff {l : List (String × Json)} :
    (ofFields l).Spelled ↔ ∀ f ∈ l, f.2.Spelled := by
  rw [ofFields, Spelled]
  induction l with
  | nil => simp [SpelledMembers]
  | cons f l ih => simp [SpelledMembers, ih]

/-- Document `d` can be written, and `read` makes `a` of it exactly where there is room for it. -/
structure Means {α : Type} (read : Reader α) (d : Json) (a : α) : Prop where
  spelled : d.Spelled
  reads : ∀ room, read room d = if d.depth ≤ room then some a else none

theorem means_text (s : String) : Means readText (.ofString s) s :=
  ⟨trivial, fun _ => rfl⟩

theorem means_bool (b : Bool) : Means readBool (.bool b) b :=
  ⟨trivial, fun _ => rfl⟩

theorem means_word (w : UInt32) : Means readWord (.ofNat w.toNat) w := by
  refine ⟨spelled_ofNat _, fun room => ?_⟩
  have small := w.toNat_lt_size
  simp [ofNat, readWord, depth, Number.toNat?, small]

theorem means_wordOf {α : Type} {words : List (String × α)} {word : String} {a : α}
    (known : words.lookup word = some a) : Means (readWordOf words) (.ofString word) a :=
  ⟨trivial, fun room => by simp [ofString, readWordOf, depth, known]⟩

section Combined

variable {α : Type} {read : Reader α} {write : α → Json}

theorem means_option (means : ∀ a, Means read (write a) a) (present : ∀ a, write a ≠ .null)
    (o : Option α) : Means (readOption read) (.ofOption write o) o := by
  cases o with
  | none => exact ⟨trivial, fun _ => rfl⟩
  | some a =>
      refine ⟨(means a).spelled, fun room => ?_⟩
      rw [ofOption, readOption.eq_2 _ _ _ (present a), (means a).reads]
      split <;> rfl

theorem means_list (means : ∀ a, Means read (write a) a) (l : List α) :
    Means (readList read) (.array (l.map write)) l := by
  refine ⟨spelled_array_iff.2 (by simpa using fun a _ => (means a).spelled), fun room => ?_⟩
  cases room with
  | zero => simp [readList, depth]
  | succ room =>
      rw [readList]
      simp only [depth_array_le_iff, List.forall_mem_map]
      induction l with
      | nil => rfl
      | cons a l ih =>
          rw [List.map_cons, List.mapM_cons, (means a).reads, ih]
          by_cases first : (write a).depth ≤ room
          · by_cases others : ∀ b ∈ l, (write b).depth ≤ room
            · simp [first, if_pos others]
            · simp [first, if_neg others]
          · simp [first]

/-- A record means what it is read to where there is room for all its fields, if it is not read
where there is no room. -/
theorem means_record {l : List (String × Json)} {a : α} (spelled : ∀ f ∈ l, f.2.Spelled)
    (bottom : read 0 (ofFields l) = none)
    (reads : ∀ room, read (room + 1) (ofFields l) =
      if ∀ f ∈ l, f.2.depth ≤ room then some a else none) : Means read (ofFields l) a := by
  refine ⟨spelled_ofFields_iff.2 spelled, fun room => ?_⟩
  cases room with
  | zero =>
      rw [bottom, if_neg]
      simp [ofFields, depth]
  | succ room => rw [reads]; simp only [depth_ofFields_le_iff]

end Combined

theorem fields_ofFields {names : List String} {l : List (String × Json)}
    (named : l.map Prod.fst = names) (apart : names.Nodup) :
    fields names (ofFields l) = some (l.map fun f => some f.2) := by
  subst named
  have all : known (l.map Prod.fst) (l.map fun f => (some f.1, f.2)) =
      l.map fun f => (some f.1, f.2) := by
    simp only [known, List.filter_eq_self, List.forall_mem_map, Option.any_some,
      List.contains_eq_mem, decide_eq_true_eq]
    exact fun f hf => List.mem_map_of_mem hf
  have once : ((l.map fun f => (some f.1, f.2)).map Prod.fst).Nodup := by
    simpa [Function.comp_def] using apart.map fun _ _ => Option.some.inj
  have values : ∀ f ∈ l, (l.map fun f => (some f.1, f.2)).lookup (some f.1) = some f.2 := by
    intro f hf
    obtain ⟨before, after, rfl⟩ := List.append_of_mem hf
    refine List.lookup_eq_some_iff.2 ⟨_, _, List.map_append, fun m hm => ?_⟩
    obtain ⟨g, hg, rfl⟩ := List.mem_map.1 hm
    simp only [List.map_append, List.map_cons, List.nodup_append] at apart
    have other : f.1 ≠ g.1 :=
      (apart.2.2 _ (List.mem_map_of_mem hg) _ List.mem_cons_self).symm
    simpa using other
  rw [ofFields, fields, if_pos ⟨by simp, by rwa [all]⟩, List.map_map]
  exact congrArg some (List.map_congr_left values)

section Fields

variable {α : Type} {read : Reader α} {d : Json} {a : α}

theorem Means.required (means : Means read d a) (room : Nat) :
    Json.required read room (some d) = if d.depth ≤ room then some a else none :=
  means.reads room

theorem Means.defaulted (means : Means read d a) (absent : α) (room : Nat) :
    Json.defaulted read absent room (some d) = if d.depth ≤ room then some a else none :=
  means.reads room

/-- What is read after a field is read where there is room for the field. -/
theorem bind_fits {β : Type} (p : Prop) [Decidable p] (a : α) (f : α → Option β) :
    (if p then some a else none).bind f = if p then f a else none := by
  split <;> rfl

end Fields

section Whole

variable {α : Type} {read : Reader α} {d : Json} {a : α}

/-- What is read from the text of a document, which is nested no deeper than a text may be. -/
theorem Means.read_render (means : Means read d a) :
    (parse? d.render).bind (read textRoom) = if d.depth ≤ textRoom then some a else none := by
  rw [parse?_render means.spelled, Option.bind_some, means.reads]

theorem Means.readValue (means : Means read d a) : Json.readValue read d = some a := by
  rw [Json.readValue, means.reads, if_pos (Nat.le_refl _)]

end Whole

end Wiring.Json
