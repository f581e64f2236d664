import Wiring.Config
import Wiring.Pass
import Wiring.Proofs.Documents.Records

/-!
Passes and settings are read back from the documents that they are written to: from the document
itself always, and from its text if and only if it is nested no deeper than a text may be.
-/
namespace Wiring

open Json

namespace TypeRef

theorem readKind_ofString (room : Nat) (word : String) :
    readKind false room (.ofString word) = kinds.lookup word := by
  cases room <;> rfl

theorem parts_writeKind {word : String} {kind : Kind} (named : kinds.lookup word = some kind)
    (content : Json) (room : Nat) :
    parts false room (writeKind word content) = some (kind, some content, false) := by
  have given : fields ["kind", "of"] (writeKind word content) =
      some [some (.ofString word), some content] :=
    fields_ofFields (l := [("kind", .ofString word), ("of", content)]) rfl (by decide)
  have order : contentFirst [(some "kind", .ofString word), (some "of", content)] = false := rfl
  unfold writeKind ofFields at given ⊢
  simp only [List.map_cons, List.map_nil] at given ⊢
  rw [parts, given]
  simp [order, readKind_ofString, named]

theorem parts_plain {word : String} {t : TypeRef} (named : kinds.lookup word = some (.plain t))
    (room : Nat) :
    parts false room (.ofFields [("kind", .ofString word)]) = some (.plain t, none, false) := by
  have given : fields ["kind", "of"] (.ofFields [("kind", .ofString word)]) =
      some [some (.ofString word), none] := rfl
  unfold ofFields at given ⊢
  simp only [List.map_cons, List.map_nil] at given ⊢
  rw [parts, given]
  have order : contentFirst [(some "kind", .ofString word)] = false := rfl
  simp [order, readKind_ofString, named]

theorem means_plain {word : String} {t : TypeRef} (named : kinds.lookup word = some (.plain t)) :
    Means read (.ofFields [("kind", .ofString word)]) t := by
  refine means_record (by simp) rfl fun room => ?_
  rw [read, readWith, parts_plain named]
  simp

theorem means_ofName {word name : String} {make : String → TypeRef}
    (named : kinds.lookup word = some (.ofName make)) :
    Means read (writeKind word (.ofString name)) (make name) := by
  refine means_record (by simp) rfl fun room => ?_
  rw [read, ← writeKind, readWith, parts_writeKind named]
  simp [(means_text name).reads]

theorem means_ofType {word : String} {make : TypeRef → TypeRef} {d : Json} {t : TypeRef}
    (named : kinds.lookup word = some (.ofType make)) (means : Means read d t) :
    Means read (writeKind word d) (make t) := by
  refine means_record (by simpa using means.spelled) rfl fun room => ?_
  have content := means.reads room
  rw [read] at content ⊢
  rw [← writeKind, readWith, parts_writeKind named]
  simp only [content]
  by_cases fits : d.depth ≤ room <;> simp [fits]

theorem means_ofPair {word : String} {make : TypeRef → TypeRef → TypeRef} {d e : Json}
    {t u : TypeRef} (named : kinds.lookup word = some (.ofPair make)) (first : Means read d t)
    (second : Means read e u) : Means read (writeKind word (.array [d, e])) (make t u) := by
  have spelled : (Json.array [d, e]).Spelled :=
    spelled_array_iff.2 (by simp [first.spelled, second.spelled])
  have content : ∀ room, readPair false room (.array [d, e]) =
      if (Json.array [d, e]).depth ≤ room then some (t, u) else none := by
    intro room
    cases room with
    | zero => simp [readPair, depth]
    | succ room =>
        have left := first.reads room
        have right := second.reads room
        rw [read] at left right
        rw [readPair, left, right]
        simp only [depth_array_le_iff]
        by_cases fits : d.depth ≤ room <;> by_cases fits' : e.depth ≤ room <;> simp [fits, fits']
  refine means_record (by simpa using spelled) rfl fun room => ?_
  rw [read, ← writeKind, readWith, parts_writeKind named]
  simp only [content]
  by_cases fits : (Json.array [d, e]).depth ≤ room <;> simp [fits]

theorem means_write (t : TypeRef) : Means read t.write t := by
  induction t with
  | text | integer | float | boolean | duration | timestamp | uri | pattern | dynamic | void
  | null => exact means_plain rfl
  | generic name | named name => exact means_ofName rfl
  | sequence item ih | set item ih | optional inner ih => exact means_ofType rfl ih
  | mapping key value ihk ihv => exact means_ofPair rfl ihk ihv

end TypeRef

theorem Location.means_write (l : Location) : Means Location.read l.write l := by
  refine means_record (by simp) rfl fun room => ?_
  have given : fields fieldNames l.write = _ := fields_ofFields rfl (by decide)
  rw [← write, Location.read, given]
  simp [(means_text _).required, (means_word _).required]

theorem Passing.means_write (p : Passing) : Means Passing.read p.write p := by
  cases p <;> exact means_wordOf rfl

theorem Policy.means_write (p : Policy) : Means Policy.read p.write p := by
  cases p <;> exact means_wordOf rfl

theorem Parameter.means_write (p : Parameter) : Means Parameter.read p.write p := by
  have type := p.type.means_write
  have passing := p.passing.means_write
  have default : Means _ _ p.default := means_option means_text (by simp [ofString]) _
  refine means_record (by simp [type.spelled, passing.spelled, default.spelled]) rfl fun room => ?_
  have given : fields fieldNames p.write = _ := fields_ofFields rfl (by decide)
  rw [← write, Parameter.read, given]
  simp [(means_text _).required, type.required, passing.required, (means_bool _).required,
    default.defaulted, bind_fits, ← ite_and]

theorem Style.means_write (s : Style) : Means Style.read s.write s := by
  cases s with
  | literal => exact ⟨trivial, fun room => by cases room <;> rfl⟩
  | function name =>
      refine means_record (by simp) rfl fun room => ?_
      simp [ofFields, Style.read, (means_text name).reads]

theorem Constructor.means_write (c : Constructor) : Means Constructor.read c.write c := by
  have style := c.style.means_write
  have params := means_list Parameter.means_write c.params
  refine means_record (by simp [style.spelled, params.spelled]) rfl fun room => ?_
  have given : fields fieldNames c.write = _ := fields_ofFields rfl (by decide)
  rw [← write, Constructor.read, given]
  simp [style.required, (means_bool _).defaulted, params.required, bind_fits, ← ite_and]

theorem Directive.means_write (d : Directive) : Means Directive.read d.write d := by
  have policy : Means _ _ d.policy :=
    means_option Policy.means_write (by simp [Policy.write, ofString]) _
  have location := d.location.means_write
  refine means_record (by simp [policy.spelled, location.spelled]) rfl fun room => ?_
  have given : fields fieldNames d.write = _ := fields_ofFields rfl (by decide)
  rw [← write, Directive.read, given]
  simp [policy.defaulted, location.defaulted, bind_fits, ← ite_and]

theorem AnnotatedClass.means_write (c : AnnotatedClass) : Means AnnotatedClass.read c.write c := by
  have location := c.location.means_write
  have directive := c.directive.means_write
  have constructor : Means _ _ c.constructor :=
    means_option Constructor.means_write (by simp [Constructor.write, ofFields]) _
  refine means_record (by simp [location.spelled, directive.spelled, constructor.spelled]) rfl
    fun room => ?_
  have given : fields fieldNames c.write = _ := fields_ofFields rfl (by decide)
  rw [← write, AnnotatedClass.read, given]
  simp [(means_text _).required, location.required, directive.defaulted, constructor.defaulted,
    bind_fits, ← ite_and]

/-- A name after all others is put at the end of a table. -/
theorem Table.alterEntries_of_last {α : Type} {name : String} (f : Option α → α)
    {l : List (String × α)} (last : ∀ e ∈ l, e.1 < name) :
    alterEntries name f l = l ++ [(name, f none)] := by
  induction l with
  | nil => rfl
  | cons x l ih =>
      obtain ⟨before, last⟩ := List.forall_mem_cons.1 last
      have after : ¬name < x.1 := fun later => String.lt_irrefl _ (String.lt_trans before later)
      have other : name ≠ x.1 := fun same => String.lt_irrefl _ (same ▸ before)
      simp [alterEntries, after, other, ih last]

/-- Entries that are put in one after another in their order make up their table. -/
theorem Table.foldl_insert {α : Type} {l : List (String × α)} {t u : Table α}
    (all : t.entries ++ l = u.entries) : l.foldl (fun t e => t.insert e.1 e.2) t = u := by
  induction l generalizing t with
  | nil => exact Table.ext (by simpa using all)
  | cons e l ih =>
      have sorted := u.sorted
      rw [← all, List.pairwise_append] at sorted
      have last : ∀ e' ∈ t.entries, e'.1 < e.1 := fun e' he => sorted.2.2 e' he e List.mem_cons_self
      apply ih
      have put : (t.insert e.1 e.2).entries = t.entries ++ [e] := alterEntries_of_last _ last
      rw [put, List.append_assoc, List.singleton_append, all]

theorem ManagedTypes.means_write (managed : ManagedTypes) :
    Means ManagedTypes.read managed.write managed := by
  have policy : ∀ f ∈ managed.entries.map (fun e => (e.1, e.2.write)),
      f.2.Spelled ∧ ∀ room, f.2.depth ≤ room := by
    simp only [List.forall_mem_map]
    exact fun e _ => ⟨(Policy.means_write e.2).spelled, Nat.zero_le⟩
  refine means_record (fun f hf => (policy f hf).1) rfl fun room => ?_
  rw [if_pos fun f hf => (policy f hf).2 room, ofFields, ManagedTypes.read, List.map_map,
    List.foldlM_map]
  have step : ∀ (t : ManagedTypes) (e : String × Policy),
      (do return t.insert (← some e.1) (← Policy.read room e.2.write)) =
        some (t.insert e.1 e.2) := by
    intro t e
    have read : Policy.read room e.2.write = some e.2 :=
      ((Policy.means_write e.2).reads room).trans (if_pos (Nat.zero_le room))
    rw [read]
    rfl
  simp only [Function.comp_apply, step]
  exact (List.foldlM_pure (m := Option)).trans (congrArg some (Table.foldl_insert rfl))

theorem BuildPass.means_write (p : BuildPass) : Means BuildPass.read p.write p := by
  have classes := means_list AnnotatedClass.means_write p.classes
  have external := p.external.means_write
  refine means_record (by simp [classes.spelled, external.spelled]) rfl fun room => ?_
  have given : fields fieldNames p.write = _ := fields_ofFields rfl (by decide)
  rw [← write, BuildPass.read, given]
  simp [classes.required, external.defaulted, bind_fits, ← ite_and]

theorem Config.means_write (c : Config) : Means Config.read c.write c := by
  refine means_record (by simp) rfl fun room => ?_
  have given : fields fieldNames c.write = _ := fields_ofFields rfl (by decide)
  rw [← write, Config.read, given]
  simp [(means_text _).defaulted, (means_bool _).defaulted]

theorem Config.depth_write (c : Config) : c.write.depth = 1 := rfl

/-- Passes and settings are read back from their documents, settings also from the text, and passes
from the text exactly if it is not nested too deep. -/
theorem documents_read_back :
    (∀ p : BuildPass, Json.readValue BuildPass.read p.write = some p ∧
      (parse? p.write.render).bind (BuildPass.read textRoom) =
        if p.write.depth ≤ textRoom then some p else none) ∧
    (∀ c : Config, Json.readValue Config.read c.write = some c ∧
      (parse? c.write.render).bind (Config.read textRoom) = some c) := by
  refine ⟨fun p => ⟨p.means_write.readValue, p.means_write.read_render⟩, fun c => ?_⟩
  refine ⟨c.means_write.readValue, ?_⟩
  rw [c.means_write.read_render, if_pos (by rw [c.depth_write]; decide)]

end Wiring
