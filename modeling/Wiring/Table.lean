/-!
Tables sorted by name. A table holds each name once and in increasing order, so two tables that
hold the same are equal.
-/
namespace Wiring

structure Table (α : Type) where
  entries : List (String × α)
  sorted : entries.Pairwise fun a b => a.1 < b.1

namespace Table

variable {α : Type}

def empty : Table α := ⟨[], .nil⟩

instance : Inhabited (Table α) := ⟨empty⟩

instance [DecidableEq α] : DecidableEq (Table α) := fun s t =>
  decidable_of_iff (s.entries = t.entries)
    ⟨fun h => by cases s; cases t; simp_all, fun h => h ▸ rfl⟩

@[ext] theorem ext {s t : Table α} (h : s.entries = t.entries) : s = t := by
  cases s; cases t; simp_all

def find? (t : Table α) (name : String) : Option α := t.entries.lookup name

def contains (t : Table α) (name : String) : Bool := (t.find? name).isSome

def size (t : Table α) : Nat := t.entries.length

/-- Puts `f` of what stands under `name` into its place. -/
def alterEntries (name : String) (f : Option α → α) : List (String × α) → List (String × α)
  | [] => [(name, f none)]
  | (k, a) :: rest =>
      if name < k then (name, f none) :: (k, a) :: rest
      else if name = k then (k, f (some a)) :: rest
      else (k, a) :: alterEntries name f rest

theorem fst_of_mem_alterEntries {name : String} {f : Option α → α} {l : List (String × α)}
    {e : String × α} (h : e ∈ alterEntries name f l) : e.1 = name ∨ ∃ e' ∈ l, e'.1 = e.1 := by
  induction l with
  | nil => simp_all [alterEntries]
  | cons x rest ih => grind [alterEntries]

theorem sorted_alterEntries (name : String) (f : Option α → α) {l : List (String × α)}
    (h : l.Pairwise fun a b => a.1 < b.1) :
    (alterEntries name f l).Pairwise fun a b => a.1 < b.1 := by
  induction l with
  | nil => simp [alterEntries]
  | cons x rest ih =>
      obtain ⟨k, a⟩ := x
      obtain ⟨hk, hr⟩ := List.pairwise_cons.1 h
      simp only [alterEntries]
      split
      · next hlt =>
          refine List.pairwise_cons.2 ⟨fun e he => ?_, h⟩
          cases List.mem_cons.1 he with
          | inl eq =>
              subst eq
              exact hlt
          | inr he =>
              exact String.lt_trans hlt (hk e he)
      · next hnlt =>
          split
          · exact List.pairwise_cons.2 ⟨hk, hr⟩
          · next hne =>
              refine List.pairwise_cons.2 ⟨fun e he => ?_, ih hr⟩
              cases fst_of_mem_alterEntries he with
              | inl h =>
                  exact h ▸ Std.lt_of_le_of_ne (String.not_lt.1 hnlt) (Ne.symm hne)
              | inr right =>
                  obtain ⟨e', he', h⟩ := right
                  exact h ▸ hk e' he'

def alter (t : Table α) (name : String) (f : Option α → α) : Table α :=
  ⟨alterEntries name f t.entries, sorted_alterEntries name f t.sorted⟩

def insert (t : Table α) (name : String) (a : α) : Table α := t.alter name fun _ => a

def insertNew (t : Table α) (name : String) (a : α) : Table α := t.alter name fun old => old.getD a

/-- Adds what `other` holds under further names. -/
def extend (t other : Table α) : Table α :=
  other.entries.foldl (fun acc e => acc.insertNew e.1 e.2) t

theorem lookup_entry (name k : String) (a : α) (rest : List (String × α)) :
    ((k, a) :: rest).lookup name = if name = k then some a else rest.lookup name := by
  by_cases h : name = k <;> simp [List.lookup_cons, beq_eq_false_iff_ne.2, h]

theorem lookup_of_lt {name : String} {l : List (String × α)} (h : ∀ e ∈ l, name < e.1) :
    l.lookup name = none := by
  induction l with
  | nil => rfl
  | cons x rest ih =>
      have hne : name ≠ x.1 := fun he => String.lt_irrefl _ (he ▸ h x (by simp))
      rw [show x = (x.1, x.2) from rfl, lookup_entry, if_neg hne]
      exact ih fun e he => h e (by simp [he])

theorem lookup_alterEntries (name : String) (f : Option α → α) {l : List (String × α)}
    (h : l.Pairwise fun a b => a.1 < b.1) (other : String) :
    (alterEntries name f l).lookup other =
      if other = name then some (f (l.lookup name)) else l.lookup other := by
  induction l with
  | nil => rw [alterEntries, lookup_entry]; rfl
  | cons x rest ih =>
      obtain ⟨k, a⟩ := x
      obtain ⟨hk, hr⟩ := List.pairwise_cons.1 h
      have absent : name < k → rest.lookup name = none := fun hlt =>
        lookup_of_lt fun e he => String.lt_trans hlt (hk e he)
      have irrefl : ¬k < k := String.lt_irrefl k
      have step := ih hr
      simp only [alterEntries]
      split <;> grind [lookup_entry]

theorem find?_alter (t : Table α) (name other : String) (f : Option α → α) :
    (t.alter name f).find? other =
      if other = name then some (f (t.find? name)) else t.find? other :=
  lookup_alterEntries name f t.sorted other

end Table

end Wiring
