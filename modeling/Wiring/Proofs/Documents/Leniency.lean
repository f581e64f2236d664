import Wiring.Config
import Wiring.Pass
import Wiring.Proofs.Documents.Types

/-!
Documents of passes and of settings. In what they consist of, the order of members, unknown members,
fields that say nothing and arrays in the place of objects make no difference, at any depth and any
number of them at once, and a document with a fault anywhere is refused as a whole.
-/
namespace Wiring

namespace Json

variable {α : Type}

def Shape.text : Shape := .leaf fun _ d => ∃ s, d = .ofString s

def Shape.flag : Shape := .leaf fun _ d => ∃ b, d = .bool b

def Shape.word : Shape := .leaf fun _ d => ∃ n < UInt32.size, d = .ofNat n

/-- One of some words, alone or as the only name of an object. -/
def Chosen (words : List String) (room : Nat) (d : Json) : Prop :=
  ∃ word ∈ words, d = .ofString word ∨ room ≠ 0 ∧ d = .object [(some word, .null)]

def Shape.choice (words : List String) : Shape := .leaf (Chosen words)

theorem exists_readText {room : Nat} {d : Json} :
    (∃ s, readText room d = some s) ↔ ∃ s, d = .ofString s := by
  cases d with
  | text value => cases value <;> simp [readText, ofString]
  | null | bool | number | array | object => simp [readText, ofString]

theorem describes_text : Shape.text.Describes readText := describes_leaf exists_readText

theorem describes_flag : Shape.flag.Describes readBool := describes_leaf fun {_ d} => by
  cases d <;> simp [readBool]

theorem describes_word : Shape.word.Describes readWord := describes_leaf fun {_ d} => by
  cases d with
  | number n =>
      obtain ⟨negative, whole, fraction, exponent⟩ := n
      cases negative <;> cases fraction <;> cases exponent <;>
        simp [readWord, ofNat, Number.toNat?]
  | null | bool | text | array | object => simp [readWord, ofNat]

theorem exists_readWordOf {words : List (String × α)} {room : Nat} {d : Json} :
    (∃ a, readWordOf words room d = some a) ↔ Chosen (words.map Prod.fst) room d := by
  have known : ∀ word, (∃ a, words.lookup word = some a) ↔ word ∈ words.map Prod.fst := by
    intro word
    rw [← Option.ne_none_iff_exists', ne_eq, List.lookup_eq_none_iff, List.mem_map]
    simp only [bne_iff_ne, ne_eq, not_forall, not_not, exists_prop]
    exact exists_congr fun w => and_congr_right fun _ => eq_comm
  match room, d with
  | _, .text (some word) => simp [readWordOf, Chosen, ofString, known]
  | _ + 1, .object [(some word, .null)] => simp [readWordOf, Chosen, ofString, known]
  | 0, .object _ | _, .null | _, .bool _ | _, .number _ | _, .array _ | _, .text none
  | _ + 1, .object [] | _ + 1, .object [(none, _)] | _ + 1, .object (_ :: _ :: _)
  | _ + 1, .object [(some _, .bool _)] | _ + 1, .object [(some _, .number _)]
  | _ + 1, .object [(some _, .text _)] | _ + 1, .object [(some _, .array _)]
  | _ + 1, .object [(some _, .object _)] => simp [readWordOf, Chosen, ofString]

theorem describes_choice (words : List (String × α)) :
    (Shape.choice (words.map Prod.fst)).Describes (readWordOf words) :=
  describes_leaf exists_readWordOf

end Json

open Json

def Passing.shape : Shape := .choice (words.map Prod.fst)

def Policy.shape : Shape := .choice (words.map Prod.fst)

def Style.shape : Shape := .leaf fun room d => Chosen ["struct_literal"] room d ∨
  room ≠ 0 ∧ ∃ name, d = .object [(some "function", .ofString name)]

def ManagedTypes.shape : Shape := .leaf fun room d => room ≠ 0 ∧
  ∃ members, d = .object members ∧
    ∀ m ∈ members, m.1.isSome ∧ Chosen (Policy.words.map Prod.fst) (room - 1) m.2

theorem Passing.describes : shape.Describes read := describes_choice words

theorem Policy.describes : shape.Describes read := describes_choice words

theorem Style.describes : shape.Describes read := describes_leaf fun {room d} => by
  by_cases function : ∃ n e, room = n + 1 ∧ d = .object [(some "function", e)]
  · obtain ⟨n, e, rfl, rfl⟩ := function
    have text : (∃ name, readText n e = some name) ↔ ∃ name, e = .ofString name := exists_readText
    have other : ¬Chosen ["struct_literal"] (n + 1) (.object [(some "function", e)]) := by
      simp [Chosen, ofString]
    rw [or_iff_right other]
    simp only [read, Option.map_eq_some_iff]
    simpa using text
  · have word : read room d = readWordOf [("struct_literal", .literal)] room d :=
      read.eq_2 room d fun n e h h' => function ⟨n, e, h, h'⟩
    rw [word, exists_readWordOf]
    refine (or_iff_left ?_).symm
    rintro ⟨positive, name, rfl⟩
    exact function ⟨room - 1, _, by omega, rfl⟩

theorem ManagedTypes.describes : shape.Describes read := describes_leaf fun {room d} => by
  match room, d with
  | 0, _ => simp [read]
  | room + 1, .object members =>
      have taken : (∃ managed, ManagedTypes.read (room + 1) (.object members) = some managed) ↔
          ∀ m ∈ members, m.1.isSome ∧ Chosen (Policy.words.map Prod.fst) room m.2 := by
        rw [read]
        generalize Table.empty = table
        induction members generalizing table with
        | nil => simp
        | cons m members ih =>
            obtain ⟨_ | name, value⟩ := m
            · simp
            · have policy : (∃ p, Policy.read room value = some p) ↔ _ := exists_readWordOf
              rw [List.foldlM_cons, List.forall_mem_cons, ← policy]
              cases Policy.read room value with
              | none => simp
              | some p => simpa using ih (table.insert name p)
      rw [taken]
      simp
  | _ + 1, .null | _ + 1, .bool _ | _ + 1, .number _ | _ + 1, .text _ | _ + 1, .array _ =>
      simp [read]

def Location.shape : Shape :=
  .record [.needed "file" .text, .needed "line" .word, .needed "column" .word]

theorem Location.describes : shape.Describes read := by
  refine describes_record fieldNames rfl (by decide) (fun _ => rfl)
    (fun _ _ absent => by rw [read, absent]) fun room d d' given given' => ?_
  rw [read, read, given, given']
  exact .cons (Field.readBy_required describes_text ..) fun _ =>
    .cons (Field.readBy_required describes_word ..) fun _ =>
    .cons (Field.readBy_required describes_word ..) fun _ => .nil _

def Directive.shape : Shape := .record
  [.optional "policy" (.option Policy.shape) (readOption Policy.read) none,
    .optional "location" Location.shape Location.read .nowhere]

theorem Directive.describes : shape.Describes read := by
  refine describes_record fieldNames rfl (by decide) (fun _ => rfl)
    (fun _ _ absent => by rw [read, absent]) fun room d d' given given' => ?_
  rw [read, read, given, given']
  exact .cons (Field.readBy_defaulted (describes_option Policy.describes) ..) fun _ =>
    .cons (Field.readBy_defaulted Location.describes ..) fun _ => .nil _

def Parameter.shape : Shape := .record
  [.needed "name" .text, .needed "ty" TypeRef.shape, .needed "kind" Passing.shape,
    .needed "required" .flag, .optional "default" (.option .text) (readOption readText) none]

theorem Parameter.describes : shape.Describes read := by
  refine describes_record fieldNames rfl (by decide) (fun _ => rfl)
    (fun _ _ absent => by rw [read, absent]) fun room d d' given given' => ?_
  rw [read, read, given, given']
  exact .cons (Field.readBy_required describes_text ..) fun _ =>
    .cons (Field.readBy_required TypeRef.describes ..) fun _ =>
    .cons (Field.readBy_required Passing.describes ..) fun _ =>
    .cons (Field.readBy_required describes_flag ..) fun _ =>
    .cons (Field.readBy_defaulted (describes_option describes_text) ..) fun _ => .nil _

def Constructor.shape : Shape := .record
  [.needed "style" Style.shape, .optional "is_async" .flag readBool false,
    .optional "is_fallible" .flag readBool false, .needed "params" (.list Parameter.shape)]

theorem Constructor.describes : shape.Describes read := by
  refine describes_record fieldNames rfl (by decide) (fun _ => rfl)
    (fun _ _ absent => by rw [read, absent]) fun room d d' given given' => ?_
  rw [read, read, given, given']
  exact .cons (Field.readBy_required Style.describes ..) fun _ =>
    .cons (Field.readBy_defaulted describes_flag ..) fun _ =>
    .cons (Field.readBy_defaulted describes_flag ..) fun _ =>
    .cons (Field.readBy_required (describes_list Parameter.describes) ..) fun _ => .nil _

def AnnotatedClass.shape : Shape := .record
  [.needed "name" .text, .needed "location" Location.shape,
    .optional "annotation" Directive.shape Directive.read .silent,
    .optional "constructor" (.option Constructor.shape) (readOption Constructor.read) none]

theorem AnnotatedClass.describes : shape.Describes read := by
  refine describes_record fieldNames rfl (by decide) (fun _ => rfl)
    (fun _ _ absent => by rw [read, absent]) fun room d d' given given' => ?_
  rw [read, read, given, given']
  exact .cons (Field.readBy_required describes_text ..) fun _ =>
    .cons (Field.readBy_required Location.describes ..) fun _ =>
    .cons (Field.readBy_defaulted Directive.describes ..) fun _ =>
    .cons (Field.readBy_defaulted (describes_option Constructor.describes) ..) fun _ => .nil _

def BuildPass.shape : Shape := .record
  [.needed "classes" (.list AnnotatedClass.shape),
    .optional "external" ManagedTypes.shape ManagedTypes.read .empty]

theorem BuildPass.describes : shape.Describes read := by
  refine describes_record fieldNames rfl (by decide) (fun _ => rfl)
    (fun _ _ absent => by rw [read, absent]) fun room d d' given given' => ?_
  rw [read, read, given, given']
  exact .cons (Field.readBy_required (describes_list AnnotatedClass.describes) ..) fun _ =>
    .cons (Field.readBy_defaulted ManagedTypes.describes ..) fun _ => .nil _

def Config.shape : Shape := .record
  [.optional "runtime_crate" .text readText standard.runtimeCrate,
    .optional "artifact_suffix" .text readText standard.artifactSuffix,
    .optional "placeholder_heuristics" .flag readBool standard.placeholderHeuristics,
    .optional "mirror_beside_inputs" .flag readBool standard.mirrorBesideInputs,
    .optional "cache_dir" .text readText standard.cacheDir]

theorem Config.describes : shape.Describes read := by
  refine describes_record fieldNames rfl (by decide) (fun _ => rfl)
    (fun _ _ absent => by rw [read, absent]) fun room d d' given given' => ?_
  rw [read, read, given, given']
  exact .cons (Field.readBy_defaulted describes_text ..) fun _ =>
    .cons (Field.readBy_defaulted describes_text ..) fun _ =>
    .cons (Field.readBy_defaulted describes_flag ..) fun _ =>
    .cons (Field.readBy_defaulted describes_flag ..) fun _ =>
    .cons (Field.readBy_defaulted describes_text ..) fun _ => .nil _

/-- Passes and settings are read from a document as from any other one that it is changed into, and
a document is refused if and only if it has a fault. -/
theorem documents_read_alike :
    (∀ (room : Nat) (d d' : Json) (p : BuildPass),
      Relation.ReflTransGen (BuildPass.shape.change room) d d' →
        BuildPass.read room d = some p → BuildPass.read room d' = some p) ∧
    (∀ (room : Nat) (d : Json), BuildPass.read room d = none ↔ BuildPass.shape.fault room d) ∧
    (∀ (room : Nat) (d d' : Json) (c : Config),
      Relation.ReflTransGen (Config.shape.change room) d d' →
        Config.read room d = some c → Config.read room d' = some c) ∧
    ∀ (room : Nat) (d : Json), Config.read room d = none ↔ Config.shape.fault room d :=
  ⟨fun _ _ _ _ => BuildPass.describes.kept_all, fun _ _ => BuildPass.describes.refused,
    fun _ _ _ _ => Config.describes.kept_all, fun _ _ => Config.describes.refused⟩

def constructorOf (type : Json) : Json :=
  .array [.ofString "struct_literal", .bool false, .bool false,
    .array [.array [.ofString "zone", type, .ofString "named", .bool true]]]

def clockOf (type : Json) : Json :=
  .array [.ofString "Clock", .array [.ofString "src/clock.rs", .ofNat 1, .ofNat 1], .array [],
    constructorOf type]

/-- Changes that alone do not keep a pass. An object for a kind cannot stand in front of an array, a
content that moves in front of its kind has to be sound, and what may stand for a kind inside it may
not when it moves back. -/
theorem misplaced_types :
    let reads := fun type => BuildPass.read textRoom (.array [.array [clockOf type]])
    let tagged : Json := .object [(some "text", .null)]
    let noted : Json := .object [(some "kind", .ofString "text"), (some "note", .text none)]
    let counted : Json := .array [.ofNat 0, .null]
    let optional : Text × Json := (some "kind", .ofString "optional")
    (TypeRef.Change (.object [(some "kind", tagged)]) (.array [tagged, .null]) ∧
      (reads (.object [(some "kind", tagged)])).isSome ∧
      reads (.array [tagged, .null]) = none) ∧
    (TypeRef.Change (.object [optional, (some "of", noted)])
        (.object [(some "of", noted), optional]) ∧
      (reads (.object [optional, (some "of", noted)])).isSome ∧
      reads (.object [(some "of", noted), optional]) = none) ∧
    TypeRef.Change (.object [(some "of", counted), optional])
        (.object [optional, (some "of", counted)]) ∧
      (reads (.object [(some "of", counted), optional])).isSome ∧
      reads (.object [optional, (some "of", counted)]) = none :=
  ⟨⟨.listedPlain (by simp) (by simp), rfl, rfl⟩, ⟨.reordered (.swap ..), rfl, rfl⟩,
    .reordered (.swap ..), rfl, rfl⟩

/-- A type is changed where the class has it. -/
theorem change_clockOf {d d' : Json} (change : TypeRef.shape.change 121 d d') :
    (Shape.list AnnotatedClass.shape).change 126 (.array [clockOf d]) (.array [clockOf d']) := by
  have param : Parameter.shape.change 122 _ _ := @RecordChange.item _ 121 [.ofString "zone"]
    [.ofString "named", .bool true] _ _ _ rfl change
  have params : (Shape.list Parameter.shape).change 123 _ _ :=
    @ListChange.item _ 122 [] [] _ _ param
  have constructor : Constructor.shape.change 124 (constructorOf d) (constructorOf d') :=
    @RecordChange.item _ 123 [.ofString "struct_literal", .bool false, .bool false] [] _ _ _ rfl
      params
  have given : (Shape.option Constructor.shape).change 124 (constructorOf d) (constructorOf d') :=
    ⟨Json.noConfusion, Json.noConfusion, constructor⟩
  have clock : AnnotatedClass.shape.change 125 (clockOf d) (clockOf d') := @RecordChange.item _ 124
    [.ofString "Clock", .array [.ofString "src/clock.rs", .ofNat 1, .ofNat 1], .array []] [] _ _ _
    rfl given
  exact @ListChange.item _ 125 [] [] _ _ clock

/-- The order of members, one left out, one unknown and an array make no difference to a pass. -/
theorem rearranged_pass_reads_alike :
    let optional : Text × Json := (some "kind", .ofString "optional")
    let plain : Json := .object [optional, (some "of", .object [(some "kind", .ofString "text")])]
    let listed : Json := .object [(some "of", .array [.ofString "text", .null]), optional]
    let p : BuildPass := ⟨[⟨"Clock", ⟨"src/clock.rs", 1, 1⟩, .silent,
      some ⟨.literal, false, false, [⟨"zone", .optional .text, .named, true, none⟩]⟩⟩], .empty⟩
    BuildPass.read textRoom (.object [(some "external", .object []),
      (some "classes", .array [clockOf plain])]) = some p ∧
    BuildPass.read textRoom (.object [(some "note", .text none),
      (some "classes", .array [clockOf listed])]) = some p := by
  intro optional plain listed p
  have given : BuildPass.read textRoom (.object [(some "external", .object []),
      (some "classes", .array [clockOf plain])]) = some p := rfl
  refine ⟨given, documents_read_alike.1 textRoom _ _ p ?_ given⟩
  have inner : TypeRef.shape.change 121 plain (.object [optional,
      (some "of", .array [.ofString "text", .null])]) :=
    ⟨@TypeRef.Change.member [optional] [] _ _ _ _ _ _ List.mem_cons_self rfl .type
      (.listedPlain List.mem_cons_self (by simp)), fun flaw => flaw.refused (.optional .text) rfl⟩
  have outer : TypeRef.shape.change 121 (.object [optional,
      (some "of", .array [.ofString "text", .null])]) listed :=
    ⟨.reordered (.swap ..), fun flaw => flaw.refused (.optional .text) rfl⟩
  have omitted : ∀ classes : Json, BuildPass.shape.change textRoom
      (.object [(some "external", .object []), (some "classes", classes)])
      (.object [(some "classes", classes)]) := fun classes =>
    @RecordChange.omitted _ 126 [] _ _ _ (.tail _ (.head _)) ⟨_, rfl, rfl⟩
  have ignored : ∀ classes : Json, BuildPass.shape.change textRoom
      (.object [(some "classes", classes)])
      (.object [(some "note", .text none), (some "classes", classes)]) := fun classes =>
    @RecordChange.ignored _ 126 [] _ _ _ (by decide)
  have member : ∀ d d' : Json, TypeRef.shape.change 121 d d' → BuildPass.shape.change textRoom
      (.object [(some "note", .text none), (some "classes", .array [clockOf d])])
      (.object [(some "note", .text none), (some "classes", .array [clockOf d'])]) :=
    fun d d' change => @RecordChange.member _ 126 [(some "note", .text none)] [] _ _ _
      (.head _) (change_clockOf change)
  exact .head (omitted _) (.head (ignored _)
    (.head (member _ _ inner) (.single (member _ _ outer))))

end Wiring
