import Mathlib.Data.List.Count
import Mathlib.Data.List.Nodup
import Wiring.Json.Shape

/-!
Fields in documents. A document has the fields of a record unless it is no record at all, has too
many items, or has a name that cannot be read or is repeated; otherwise each field is the member of
its name or the item at its place.
-/
namespace Wiring.Json

/-- What keeps a document from being a record of these names, whatever its fields hold. -/
inductive Misshapen (names : List String) : Json → Prop
  | scalar {d : Json} (array : ∀ items, d ≠ .array items)
      (object : ∀ members, d ≠ .object members) : Misshapen names d
  | long {items : List Json} (long : names.length < items.length) : Misshapen names (.array items)
  | unreadable {members : List (Text × Json)} {value : Json} (there : (none, value) ∈ members) :
      Misshapen names (.object members)
  | repeated {members : List (Text × Json)} {name : String} (known : name ∈ names)
      (twice : 1 < (members.map Prod.fst).count (some name)) : Misshapen names (.object members)

def slot (d : Json) (place : Nat) (name : String) : Option Json :=
  match d with
  | .array items => items[place]?
  | .object members => members.lookup (some name)
  | _ => none

variable {names : List String} {name : String} {members : List (Text × Json)} {value : Json}
  {d : Json}

theorem not_misshapen_array_iff {items : List Json} :
    ¬Misshapen names (.array items) ↔ items.length ≤ names.length := by
  constructor
  · exact fun fits => Nat.le_of_not_lt fun long => fits (.long long)
  · rintro fits (⟨array, -⟩ | long)
    · exact array items rfl
    · omega

theorem not_misshapen_object_iff : ¬Misshapen names (.object members) ↔
    (∀ m ∈ members, m.1.isSome) ∧ ∀ name ∈ names, (members.map Prod.fst).count (some name) ≤ 1 := by
  constructor
  · refine fun fits => ⟨fun m hm => ?_, fun name known => ?_⟩
    · obtain ⟨_ | name, value⟩ := m
      · exact absurd (.unreadable hm) fits
      · rfl
    · exact Nat.le_of_not_lt fun twice => fits (.repeated known twice)
  · rintro ⟨readable, once⟩ (⟨-, object⟩ | _ | there | ⟨known, twice⟩)
    · exact object members rfl
    · cases readable _ there
    · exact absurd (once _ known) (Nat.not_le.2 twice)

/-- Names of members are apart among the known ones if each of these stands there once at most. -/
theorem nodup_known_iff : ((known names members).map Prod.fst).Nodup ↔
    ∀ name ∈ names, (members.map Prod.fst).count (some name) ≤ 1 := by
  have count : ∀ text : Text, ((known names members).map Prod.fst).count text =
      if text.any fun name => names.contains name then (members.map Prod.fst).count text
      else 0 := by
    intro text
    rw [known, List.count_eq_countP, List.countP_map, List.countP_filter, List.count_eq_countP,
      List.countP_map]
    split
    · next kept =>
      refine List.countP_congr fun m _ => ?_
      simp only [Function.comp_apply, Bool.and_eq_true, beq_iff_eq]
      exact ⟨And.left, fun same => ⟨same, same ▸ kept⟩⟩
    · next dropped =>
      rw [List.countP_eq_zero]
      intro m _ h
      simp only [Function.comp_apply, Bool.and_eq_true, beq_iff_eq] at h
      exact dropped (h.1 ▸ h.2)
  rw [List.nodup_iff_count_le_one]
  simp only [count]
  constructor
  · intro once name known
    have := once (some name)
    rwa [if_pos (by simpa using known)] at this
  · intro once text
    split
    · next kept =>
      obtain ⟨name, rfl, known⟩ := (Option.any_eq_true _ _).1 kept
      exact once name (by simpa using known)
    · exact Nat.zero_le 1

/-- A member whose name stands there once is found. -/
theorem lookup_eq_some_iff_mem (once : (members.map Prod.fst).count (some name) ≤ 1) :
    members.lookup (some name) = some value ↔ (some name, value) ∈ members := by
  constructor
  · intro found
    obtain ⟨before, after, rfl, -⟩ := List.lookup_eq_some_iff.1 found
    simp
  · intro there
    obtain ⟨before, after, rfl⟩ := List.append_of_mem there
    refine List.lookup_eq_some_iff.2 ⟨before, after, rfl, fun m hm => bne_iff_ne.2 fun same => ?_⟩
    simp only [List.map_append, List.map_cons, List.count_append, List.count_cons_self] at once
    have : 0 < (before.map Prod.fst).count (some name) :=
      List.count_pos_iff.2 (same ▸ List.mem_map_of_mem hm)
    omega

theorem lookup_eq_none_iff_not_mem :
    members.lookup (some name) = none ↔ ∀ value, (some name, value) ∉ members := by
  rw [List.lookup_eq_none_iff]
  simp only [bne_iff_ne, ne_eq]
  exact ⟨fun absent value there => absent _ there rfl,
    fun absent m there same => absent m.2 (same ▸ there)⟩

/-- The members of a name decide what is found under it. -/
theorem lookup_congr {members' : List (Text × Json)}
    (once : (members.map Prod.fst).count (some name) ≤ 1)
    (once' : (members'.map Prod.fst).count (some name) ≤ 1)
    (same : ∀ value, (some name, value) ∈ members ↔ (some name, value) ∈ members') :
    members.lookup (some name) = members'.lookup (some name) :=
  Option.ext fun value => by
    rw [lookup_eq_some_iff_mem once, lookup_eq_some_iff_mem once', same]

section Inserted

variable {before after : List (Text × Json)} {other : Text}

theorem lookup_inserted_ne (h : some name ≠ other) :
    (before ++ (other, value) :: after).lookup (some name) =
      (before ++ after).lookup (some name) := by
  rw [List.lookup_append, List.lookup_append, List.lookup_cons, beq_eq_false_iff_ne.2 h]

theorem count_inserted (text : Text) :
    ((before ++ (other, value) :: after).map Prod.fst).count text =
      ((before ++ after).map Prod.fst).count text + if other = text then 1 else 0 := by
  simp only [List.map_append, List.map_cons, List.count_append, List.count_cons, beq_iff_eq]
  omega

end Inserted

section Kept

variable {members' before after : List (Text × Json)}

theorem fits_reordered (perm : members.Perm members') (fits : ¬Misshapen names (.object members)) :
    ¬Misshapen names (.object members') ∧
      ∀ name ∈ names, members'.lookup (some name) = members.lookup (some name) := by
  obtain ⟨readable, once⟩ := not_misshapen_object_iff.1 fits
  have once' : ∀ name ∈ names, (members'.map Prod.fst).count (some name) ≤ 1 :=
    fun name h => (perm.map Prod.fst).count_eq (some name) ▸ once name h
  exact ⟨not_misshapen_object_iff.2 ⟨fun m hm => readable m (perm.mem_iff.2 hm), once'⟩,
    fun name h => lookup_congr (once' name h) (once name h) fun _ => perm.mem_iff.symm⟩

theorem fits_ignored (unknown : name ∉ names)
    (fits : ¬Misshapen names (.object (before ++ after))) :
    ¬Misshapen names (.object (before ++ (some name, value) :: after)) ∧ ∀ known ∈ names,
      (before ++ (some name, value) :: after).lookup (some known) =
        (before ++ after).lookup (some known) := by
  obtain ⟨readable, once⟩ := not_misshapen_object_iff.1 fits
  have other : ∀ known ∈ names, some known ≠ some name :=
    fun known h same => unknown (Option.some.inj same ▸ h)
  refine ⟨not_misshapen_object_iff.2 ⟨?_, fun known h => ?_⟩,
    fun known h => lookup_inserted_ne (other known h)⟩
  · simp only [List.forall_mem_append, List.forall_mem_cons] at readable ⊢
    exact ⟨readable.1, rfl, readable.2⟩
  · rw [count_inserted, if_neg (other known h).symm]
    exact once known h

theorem fits_removed (fits : ¬Misshapen names (.object (before ++ (some name, value) :: after))) :
    ¬Misshapen names (.object (before ++ after)) := by
  obtain ⟨readable, once⟩ := not_misshapen_object_iff.1 fits
  refine not_misshapen_object_iff.2 ⟨?_, fun known h => ?_⟩
  · simp only [List.forall_mem_append, List.forall_mem_cons] at readable ⊢
    exact ⟨readable.1, readable.2.2⟩
  · have := once known h
    rw [count_inserted] at this
    omega

theorem fits_replaced (value' : Json)
    (fits : ¬Misshapen names (.object (before ++ (some name, value) :: after))) :
    ¬Misshapen names (.object (before ++ (some name, value') :: after)) := by
  obtain ⟨readable, once⟩ := not_misshapen_object_iff.1 fits
  refine not_misshapen_object_iff.2 ⟨?_, fun known h => ?_⟩
  · simp only [List.forall_mem_append, List.forall_mem_cons] at readable ⊢
    exact ⟨readable.1, rfl, readable.2.2⟩
  · simpa only [count_inserted] using once known h

/-- The only member of a known name is found. -/
theorem lookup_of_fits (fits : ¬Misshapen names (.object members)) (known : name ∈ names) :
    members.lookup (some name) = some value ↔ (some name, value) ∈ members :=
  lookup_eq_some_iff_mem ((not_misshapen_object_iff.1 fits).2 name known)

theorem lookup_removed (fits : ¬Misshapen names (.object (before ++ (some name, value) :: after)))
    (known : name ∈ names) : (before ++ after).lookup (some name) = none := by
  have once := (not_misshapen_object_iff.1 fits).2 name known
  rw [count_inserted, if_pos rfl] at once
  have gone : ((before ++ after).map Prod.fst).count (some name) = 0 := by omega
  exact lookup_eq_none_iff_not_mem.2 fun value there =>
    List.count_eq_zero.1 gone (List.mem_map_of_mem (f := Prod.fst) there)

end Kept

theorem fields_of_misshapen (h : Misshapen names d) : fields names d = none := by
  cases h with
  | scalar array object =>
      cases d with
      | array items => exact absurd rfl (array items)
      | object members => exact absurd rfl (object members)
      | null | bool | number | text => rfl
  | long long => rw [fields, if_neg (Nat.not_le.2 long)]
  | unreadable there =>
      rw [fields, if_neg]
      rintro ⟨readable, -⟩
      cases List.all_eq_true.1 readable _ there
  | repeated known twice =>
      rw [fields, if_neg]
      rintro ⟨-, apart⟩
      exact absurd (nodup_known_iff.1 apart _ known) (Nat.not_le.2 twice)

theorem fields_of_not_misshapen (h : ¬Misshapen names d) :
    fields names d = some (names.mapIdx fun place name => slot d place name) := by
  cases d with
  | array items =>
      have fits := not_misshapen_array_iff.1 h
      rw [fields, if_pos fits]
      refine congrArg some (List.ext_getElem? fun i => ?_)
      simp only [List.getElem?_mapIdx, slot, List.getElem?_append, List.length_map,
        List.getElem?_map, List.getElem?_replicate]
      by_cases inside : i < items.length
      · have known : i < names.length := Nat.lt_of_lt_of_le inside fits
        simp [inside, known]
      · by_cases known : i < names.length
        · simp [inside, known]
          omega
        · simp [inside, known]
          omega
  | object members =>
      obtain ⟨readable, once⟩ := not_misshapen_object_iff.1 h
      rw [fields, if_pos ⟨List.all_eq_true.2 readable, nodup_known_iff.2 once⟩]
      exact congrArg some (List.ext_getElem? fun i => by simp [slot])
  | null | bool | number | text => exact absurd (.scalar (by simp) (by simp)) h

end Wiring.Json
