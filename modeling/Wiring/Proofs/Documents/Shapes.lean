import Mathlib.Data.List.Perm.Basic
import Mathlib.Logic.Relation
import Wiring.Proofs.Documents.Members

/-!
Shapes of documents: which documents a reader refuses, and which changes of the others it does not
notice. A list or a record is refused if and only if it has no such form or a part of it is refused.
The members of a record may stand in any order and among unknown ones, those that say nothing may be
left out, and the record may be the array of its fields.
-/
namespace Wiring.Json

/-- The documents that are refused where some levels of nesting are left, and the changes of the
others that are not noticed. -/
structure Shape where
  fault : Nat → Json → Prop
  change : Nat → Json → Json → Prop

/-- A reader refuses exactly the documents at fault, and reads the changed ones alike. -/
structure Shape.Describes {α : Type} (s : Shape) (read : Reader α) : Prop where
  refused : ∀ {room d}, read room d = none ↔ s.fault room d
  kept : ∀ {room d d' a}, s.change room d d' → read room d = some a → read room d' = some a

theorem Shape.Describes.kept_all {α : Type} {s : Shape} {read : Reader α} (h : s.Describes read)
    {room : Nat} {d d' : Json} {a : α} (changes : Relation.ReflTransGen (s.change room) d d')
    (given : read room d = some a) : read room d' = some a := by
  induction changes with
  | refl => exact given
  | tail _ change ih => exact h.kept change ih

def Shape.leaf (taken : Nat → Json → Prop) : Shape :=
  ⟨fun room d => ¬taken room d, fun _ _ _ => False⟩

def Shape.option (s : Shape) : Shape where
  fault room d := d ≠ .null ∧ s.fault room d
  change room d d' := d ≠ .null ∧ d' ≠ .null ∧ s.change room d d'

inductive ListFault (item : Shape) : Nat → Json → Prop
  | deep {d : Json} : ListFault item 0 d
  | other {room : Nat} {d : Json} (other : ∀ items, d ≠ .array items) : ListFault item room d
  | item {room : Nat} {items : List Json} {d : Json} (there : d ∈ items)
      (fault : item.fault room d) : ListFault item (room + 1) (.array items)

inductive ListChange (item : Shape) : Nat → Json → Json → Prop
  | item {room : Nat} {before after : List Json} {d d' : Json} (change : item.change room d d') :
      ListChange item (room + 1) (.array (before ++ d :: after)) (.array (before ++ d' :: after))

def Shape.list (item : Shape) : Shape := ⟨ListFault item, ListChange item⟩

section Values

variable {α : Type} {read : Reader α} {s : Shape} {taken : Nat → Json → Prop}

theorem describes_leaf (h : ∀ {room d}, (∃ a, read room d = some a) ↔ taken room d) :
    (Shape.leaf taken).Describes read where
  refused := by
    intro room d
    rw [Option.eq_none_iff_forall_ne_some, ← not_exists]
    exact not_congr h
  kept := False.elim

theorem describes_option (h : s.Describes read) : s.option.Describes (readOption read) where
  refused := by
    intro room d
    by_cases null : d = .null
    · subst null
      simp [readOption, Shape.option]
    · rw [readOption.eq_2 _ _ _ null, Option.map_eq_none_iff, h.refused]
      exact (and_iff_right null).symm
  kept := by
    rintro room d d' a ⟨present, present', change⟩ given
    rw [readOption.eq_2 _ _ _ present, Option.map_eq_some_iff] at given
    obtain ⟨a, given, rfl⟩ := given
    rw [readOption.eq_2 _ _ _ present', h.kept change given]
    rfl

theorem mapM_eq_none_iff {β γ : Type} {f : β → Option γ} {l : List β} :
    l.mapM f = none ↔ ∃ b ∈ l, f b = none := by
  induction l with
  | nil => simp
  | cons b l ih =>
      rw [List.mapM_cons, List.exists_mem_cons_iff, ← ih]
      cases f b <;> cases l.mapM f <;> simp

theorem describes_list (h : s.Describes read) : s.list.Describes (readList read) where
  refused := by
    intro room d
    match room, d with
    | 0, _ => exact iff_of_true rfl .deep
    | room + 1, .array items =>
        rw [readList, mapM_eq_none_iff]
        constructor
        · rintro ⟨d, there, none⟩
          exact .item there (h.refused.1 none)
        · rintro (_ | other | ⟨there, fault⟩)
          · exact absurd rfl (other items)
          · exact ⟨_, there, h.refused.2 fault⟩
    | _ + 1, .null | _ + 1, .bool _ | _ + 1, .number _ | _ + 1, .text _ | _ + 1, .object _ =>
        exact iff_of_true rfl (.other (by simp))
  kept := by
    rintro _ _ _ l ⟨change⟩ given
    simp only [readList, List.mapM_append, List.mapM_cons, Option.bind_eq_bind,
      Option.bind_eq_some_iff] at given ⊢
    obtain ⟨front, first, rest, ⟨a, here, back, last, same⟩, whole⟩ := given
    exact ⟨front, first, rest, ⟨a, h.kept change here, back, last, same⟩, whole⟩

end Values

structure Field where
  name : String
  shape : Shape
  /-- For a field that may be left out, the values that say what leaving it out says. -/
  silent : Option (Nat → Json → Prop)

namespace Field

def Silent (f : Field) (room : Nat) (value : Json) : Prop := ∃ p ∈ f.silent, p room value

def needed (name : String) (shape : Shape) : Field := ⟨name, shape, none⟩

def optional {α : Type} (name : String) (shape : Shape) (read : Reader α) (absent : α) : Field :=
  ⟨name, shape, some fun room value => read room value = some absent⟩

end Field

inductive RecordFault (fields : List Field) : Nat → Json → Prop
  | deep {d : Json} : RecordFault fields 0 d
  | misshapen {room : Nat} {d : Json} (misshapen : Misshapen (fields.map Field.name) d) :
      RecordFault fields (room + 1) d
  | missing {room place : Nat} {d : Json} {f : Field} (here : fields[place]? = some f)
      (needed : f.silent = none) (missing : slot d place f.name = none) :
      RecordFault fields (room + 1) d
  | wrong {room place : Nat} {d value : Json} {f : Field} (here : fields[place]? = some f)
      (given : slot d place f.name = some value) (fault : f.shape.fault room value) :
      RecordFault fields (room + 1) d

inductive RecordChange (fields : List Field) : Nat → Json → Json → Prop
  | reordered {room : Nat} {members members' : List (Text × Json)} (perm : members.Perm members') :
      RecordChange fields (room + 1) (.object members) (.object members')
  | ignored {room : Nat} {before after : List (Text × Json)} {name : String} {value : Json}
      (unknown : name ∉ fields.map Field.name) :
      RecordChange fields (room + 1) (.object (before ++ after))
        (.object (before ++ (some name, value) :: after))
  | omitted {room : Nat} {before after : List (Text × Json)} {f : Field} {value : Json}
      (field : f ∈ fields) (silent : f.Silent room value) :
      RecordChange fields (room + 1) (.object (before ++ (some f.name, value) :: after))
        (.object (before ++ after))
  /-- Each item is the member of its field, or says what leaving that out says. -/
  | listed {room : Nat} {members : List (Text × Json)} {items : List Json}
      (all : items.length = fields.length)
      (each : ∀ (place : Nat) (f : Field) (value : Json), fields[place]? = some f →
        items[place]? = some value → (some f.name, value) ∈ members ∨
          (∀ value, (some f.name, value) ∉ members) ∧ f.Silent room value) :
      RecordChange fields (room + 1) (.object members) (.array items)
  | shortened {room : Nat} {items : List Json} {f : Field} {value : Json}
      (last : fields[items.length]? = some f) (silent : f.Silent room value) :
      RecordChange fields (room + 1) (.array (items ++ [value])) (.array items)
  | member {room : Nat} {before after : List (Text × Json)} {f : Field} {value value' : Json}
      (field : f ∈ fields) (change : f.shape.change room value value') :
      RecordChange fields (room + 1) (.object (before ++ (some f.name, value) :: after))
        (.object (before ++ (some f.name, value') :: after))
  | item {room : Nat} {before after : List Json} {f : Field} {value value' : Json}
      (here : fields[before.length]? = some f) (change : f.shape.change room value value') :
      RecordChange fields (room + 1) (.array (before ++ value :: after))
        (.array (before ++ value' :: after))

def Shape.record (fields : List Field) : Shape := ⟨RecordFault fields, RecordChange fields⟩

inductive Field.Change (f : Field) (room : Nat) : Option Json → Option Json → Prop
  | same {given : Option Json} : f.Change room given given
  | changed {value value' : Json} (change : f.shape.change room value value') :
      f.Change room (some value) (some value')
  | omitted {value : Json} (silent : f.Silent room value) : f.Change room (some value) none
  | given {value : Json} (silent : f.Silent room value) : f.Change room none (some value)

section Records

variable {fields : List Field} {room : Nat} {d d' : Json}

theorem field_eq {f g : Field} (apart : (fields.map Field.name).Nodup) (hf : f ∈ fields)
    (hg : g ∈ fields) (same : f.name = g.name) : f = g :=
  List.inj_on_of_nodup_map apart hf hg same

theorem change_omitted {before after : List (Text × Json)} {f g : Field} {value : Json}
    {place : Nat} (apart : (fields.map Field.name).Nodup)
    (fits : ¬Misshapen (fields.map Field.name) (.object (before ++ (some f.name, value) :: after)))
    (hf : f ∈ fields) (hg : g ∈ fields) (silent : f.Silent room value) :
    g.Change room (slot (.object (before ++ (some f.name, value) :: after)) place g.name)
      (slot (.object (before ++ after)) place g.name) := by
  rw [slot, slot]
  by_cases same : g = f
  · subst same
    have named := List.mem_map_of_mem (f := Field.name) hg
    rw [(lookup_of_fits fits named).2 List.mem_append_cons_self, lookup_removed fits named]
    exact .omitted silent
  · have other : some g.name ≠ some f.name :=
      fun h => same (field_eq apart hg hf (Option.some.inj h))
    rw [lookup_inserted_ne other]
    exact .same

theorem change_member {before after : List (Text × Json)} {f g : Field} {value value' : Json}
    {place : Nat} (apart : (fields.map Field.name).Nodup)
    (fits : ¬Misshapen (fields.map Field.name) (.object (before ++ (some f.name, value) :: after)))
    (hf : f ∈ fields) (hg : g ∈ fields) (change : f.shape.change room value value') :
    g.Change room (slot (.object (before ++ (some f.name, value) :: after)) place g.name)
      (slot (.object (before ++ (some f.name, value') :: after)) place g.name) := by
  rw [slot, slot]
  by_cases same : g = f
  · subst same
    have named := List.mem_map_of_mem (f := Field.name) hg
    rw [(lookup_of_fits fits named).2 List.mem_append_cons_self,
      (lookup_of_fits (fits_replaced value' fits) named).2 List.mem_append_cons_self]
    exact .changed change
  · have other : some g.name ≠ some f.name :=
      fun h => same (field_eq apart hg hf (Option.some.inj h))
    rw [lookup_inserted_ne other, lookup_inserted_ne other]
    exact .same

theorem change_shortened {items : List Json} {f g : Field} {value : Json} {place : Nat}
    (last : fields[items.length]? = some f) (here : fields[place]? = some g)
    (silent : f.Silent room value) :
    g.Change room (slot (.array (items ++ [value])) place g.name)
      (slot (.array items) place g.name) := by
  rw [slot, slot]
  obtain before | at_ | after := Nat.lt_trichotomy place items.length
  · rw [List.getElem?_append_left before]
    exact .same
  · subst at_
    obtain rfl := Option.some.inj (last.symm.trans here)
    rw [List.getElem?_concat_length, List.getElem?_eq_none (Nat.le_refl _)]
    exact .omitted silent
  · rw [List.getElem?_eq_none (by simp; omega), List.getElem?_eq_none (by omega)]
    exact .same

theorem change_item {before after : List Json} {f g : Field} {value value' : Json} {place : Nat}
    (at_ : fields[before.length]? = some f) (here : fields[place]? = some g)
    (change : f.shape.change room value value') :
    g.Change room (slot (.array (before ++ value :: after)) place g.name)
      (slot (.array (before ++ value' :: after)) place g.name) := by
  rw [slot, slot]
  by_cases same : place = before.length
  · subst same
    obtain rfl := Option.some.inj (at_.symm.trans here)
    simpa using Field.Change.changed change
  · have other : (before ++ value :: after)[place]? = (before ++ value' :: after)[place]? := by
      rw [List.getElem?_append, List.getElem?_append]
      split
      · rfl
      · rw [List.getElem?_cons, List.getElem?_cons, if_neg (by omega), if_neg (by omega)]
    rw [other]
    exact .same

/-- A change of a record leaves it one and touches its fields only as each of these allows. -/
theorem RecordChange.each (apart : (fields.map Field.name).Nodup)
    (change : RecordChange fields (room + 1) d d') (fits : ¬Misshapen (fields.map Field.name) d) :
    ¬Misshapen (fields.map Field.name) d' ∧ ∀ (place : Nat) (f : Field),
      fields[place]? = some f → f.Change room (slot d place f.name) (slot d' place f.name) := by
  have known : ∀ {place : Nat} {f : Field}, fields[place]? = some f → f ∈ fields :=
    List.mem_of_getElem?
  have named : ∀ {f : Field}, f ∈ fields → f.name ∈ fields.map Field.name := List.mem_map_of_mem
  cases change with
  | reordered perm =>
      obtain ⟨fits', same⟩ := fits_reordered perm fits
      refine ⟨fits', fun place f here => ?_⟩
      rw [slot, slot, same _ (named (known here))]
      exact .same
  | ignored unknown =>
      obtain ⟨fits', same⟩ := fits_ignored unknown fits
      refine ⟨fits', fun place f here => ?_⟩
      rw [slot, slot, same _ (named (known here))]
      exact .same
  | omitted field silent =>
      exact ⟨fits_removed fits, fun _ _ here => change_omitted apart fits field (known here) silent⟩
  | @listed _ members items all each =>
      refine ⟨not_misshapen_array_iff.2 (by simp [all]), fun place f here => ?_⟩
      have inside : place < items.length := all ▸ (List.getElem?_eq_some_iff.1 here).1
      have item := List.getElem?_eq_getElem inside
      rw [slot, slot, item]
      obtain there | ⟨absent, silent⟩ := each place f _ here item
      · rw [(lookup_of_fits fits (named (known here))).2 there]
        exact .same
      · rw [lookup_eq_none_iff_not_mem.2 absent]
        exact .given silent
  | @shortened _ items f value last silent =>
      have fits := not_misshapen_array_iff.1 fits
      rw [List.length_append] at fits
      exact ⟨not_misshapen_array_iff.2 (by omega),
        fun _ _ here => change_shortened last here silent⟩
  | @member _ before after f value value' field change =>
      exact ⟨fits_replaced value' fits,
        fun _ _ here => change_member apart fits field (known here) change⟩
  | @item _ before after f value value' at_ change =>
      have fits := not_misshapen_array_iff.1 fits
      exact ⟨not_misshapen_array_iff.2 (by simpa using fits),
        fun _ _ here => change_item at_ here change⟩

end Records

namespace Field

def Refused (f : Field) (room : Nat) : Option Json → Prop
  | none => f.silent = none
  | some value => f.shape.fault room value

structure ReadBy {β : Type} (f : Field) (room : Nat) (read : Option Json → Option β) : Prop where
  refused : ∀ {given}, read given = none ↔ f.Refused room given
  kept : ∀ {given given' b}, f.Change room given given' → read given = some b → read given' = some b

variable {β : Type} {read : Reader β} {s : Shape}

theorem readBy_required (h : s.Describes read) (name : String) (room : Nat) :
    (needed name s).ReadBy room (required read room) where
  refused := by
    rintro (_ | value)
    · exact iff_of_true rfl rfl
    · exact h.refused
  kept := by
    rintro _ _ b (_ | change | ⟨_, absurd, _⟩ | ⟨_, absurd, _⟩) given
    · exact given
    · exact h.kept change given
    · cases absurd
    · cases absurd

theorem readBy_defaulted (h : s.Describes read) (name : String) (absent : β) (room : Nat) :
    (optional name s read absent).ReadBy room (defaulted read absent room) where
  refused := by
    rintro (_ | value)
    · exact iff_of_false (Option.some_ne_none _) (Option.some_ne_none _)
    · exact h.refused
  kept := by
    rintro _ _ b (_ | change | ⟨_, ⟨⟩, silent⟩ | ⟨_, ⟨⟩, silent⟩) given
    · exact given
    · exact h.kept change given
    · exact silent.symm.trans given
    · exact silent.trans given

end Field

/-- A record is read from two documents field by field, from some place on. -/
inductive Assembled {α : Type} (room : Nat) (d d' : Json) :
    Nat → List Field → Option α → Option α → Prop
  | nil {place : Nat} (a : α) : Assembled room d d' place [] (some a) (some a)
  | cons {β : Type} {place : Nat} {f : Field} {fields : List Field} {read : Option Json → Option β}
      {rest rest' : β → Option α} (field : f.ReadBy room read)
      (others : ∀ b, Assembled room d d' (place + 1) fields (rest b) (rest' b)) :
      Assembled room d d' place (f :: fields) (read (slot d place f.name) >>= rest)
        (read (slot d' place f.name) >>= rest')

section Assembled

variable {α : Type} {fields : List Field} {room place : Nat} {d d' : Json} {o o' : Option α}

theorem Assembled.eq_none_iff (h : Assembled room d d' place fields o o') :
    o = none ↔ ∃ (i : Nat) (f : Field), fields[i]? = some f ∧
      f.Refused room (slot d (place + i) f.name) := by
  induction h with
  | nil a => simp
  | @cons β place f fields read rest rest' field others ih =>
      rw [Option.bind_eq_bind, Option.bind_eq_none_iff]
      constructor
      · intro none
        cases first : read (slot d place f.name) with
        | none => exact ⟨0, f, rfl, field.refused.1 first⟩
        | some b =>
            obtain ⟨i, g, here, refused⟩ := (ih b).1 (none b first)
            exact ⟨i + 1, g, here, by rwa [Nat.add_right_comm] at refused⟩
      · rintro ⟨_ | i, g, here, refused⟩ b first
        · obtain rfl := Option.some.inj here
          cases first.symm.trans (field.refused.2 refused)
        · exact (ih b).2 ⟨i, g, here, by rwa [Nat.add_right_comm]⟩

theorem Assembled.kept (h : Assembled room d d' place fields o o')
    (each : ∀ (i : Nat) (f : Field), fields[i]? = some f →
      f.Change room (slot d (place + i) f.name) (slot d' (place + i) f.name))
    {a : α} (given : o = some a) : o' = some a := by
  induction h with
  | nil => exact given
  | @cons β place f fields read rest rest' field others ih =>
      rw [Option.bind_eq_bind, Option.bind_eq_some_iff] at given ⊢
      obtain ⟨b, first, given⟩ := given
      refine ⟨b, field.kept (each 0 f rfl) first, ih b (fun i g here => ?_) given⟩
      have := each (i + 1) g here
      rwa [← Nat.add_assoc, Nat.add_right_comm] at this

end Assembled

theorem describes_record {α : Type} {fields : List Field} {read : Reader α} (names : List String)
    (named : fields.map Field.name = names) (apart : names.Nodup) (deep : ∀ d, read 0 d = none)
    (absent : ∀ room d, Json.fields names d = none → read (room + 1) d = none)
    (given : ∀ room d d', Json.fields names d = some (names.mapIdx (slot d)) →
      Json.fields names d' = some (names.mapIdx (slot d')) →
        Assembled room d d' 0 fields (read (room + 1) d) (read (room + 1) d')) :
    (Shape.record fields).Describes read where
  refused := by
    subst named
    intro room d
    cases room with
    | zero => exact iff_of_true (deep d) .deep
    | succ room =>
        by_cases shape : Misshapen (fields.map Field.name) d
        · exact iff_of_true (absent room d (fields_of_misshapen shape)) (.misshapen shape)
        · have whole := fields_of_not_misshapen shape
          rw [(given room d d whole whole).eq_none_iff]
          simp only [Nat.zero_add]
          constructor
          · rintro ⟨place, f, here, refused⟩
            cases given : slot d place f.name with
            | none => exact .missing here (by rwa [given] at refused) given
            | some value => exact .wrong here given (by rwa [given] at refused)
          · rintro (_ | misshapen | ⟨here, needed, missing⟩ | ⟨here, given, fault⟩)
            · exact absurd misshapen shape
            · exact ⟨_, _, here, by rwa [missing]⟩
            · exact ⟨_, _, here, by rwa [given]⟩
  kept := by
    subst named
    intro room d d' a change read_
    cases room with
    | zero => cases change
    | succ room =>
        have fits : ¬Misshapen (fields.map Field.name) d := fun shape =>
          Option.some_ne_none a (read_.symm.trans (absent room d (fields_of_misshapen shape)))
        obtain ⟨fits', each⟩ := change.each apart fits
        exact (given room d d' (fields_of_not_misshapen fits) (fields_of_not_misshapen fits')).kept
          (by simpa only [Nat.zero_add] using each) read_

end Wiring.Json
