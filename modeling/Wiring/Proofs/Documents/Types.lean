import Wiring.Proofs.Documents.Shapes
import Wiring.TypeRef

/-!
Documents of types. A content that stands before its kind is held back until the kind is known: it
has to be sound then, and inside it kinds may be written in more ways. Apart from that, the order of
the members, unknown ones among them, and the array of kind and content make no difference.
-/
namespace Wiring.TypeRef

open Json

def kindOf : Json → Option Kind
  | .text (some word) | .object [(some word, .null)] | .object [(some word, .object [])] =>
      kinds.lookup word
  | .number n => n.toNat?.bind fun place => kinds[place]?.map Prod.snd
  | _ => none

/-- Where a kind may be written so: a word anywhere, an object not in front of an array; an object
that holds another one, and in front of an array a place, only in what is held back. -/
def Admits (held listed : Bool) : Json → Prop
  | .text _ => True
  | .object [(_, .null)] => listed = false
  | .object _ => listed = false ∧ held
  | .number _ => listed ∧ held
  | _ => False

/-- The kind and the content of a document, and how they stand there. -/
structure Written where
  kind : Json
  content : Option Json
  /-- Whether they are the items of an array. -/
  listed : Bool
  /-- Whether the content stands before the kind. -/
  early : Bool

def written? : Json → Option Written
  | .array [kind, content] => some ⟨kind, some content, true, false⟩
  | .object members =>
      match Json.fields ["kind", "of"] (.object members) with
      | some [some kind, content] => some ⟨kind, content, false, contentFirst members⟩
      | _ => none
  | _ => none

/-- What a content has to be for a kind, but for the types in it. -/
inductive Fits : Kind → Nat → Option Json → Prop
  | plain {t : TypeRef} {room : Nat} : Fits (.plain t) room none
  | null {t : TypeRef} {room : Nat} : Fits (.plain t) room (some .null)
  | type {make : TypeRef → TypeRef} {room : Nat} {d : Json} : Fits (.ofType make) room (some d)
  | pair {make : TypeRef → TypeRef → TypeRef} {room : Nat} {a b : Json} :
      Fits (.ofPair make) (room + 1) (some (.array [a, b]))
  | name {make : String → TypeRef} {room : Nat} {name : String} :
      Fits (.ofName make) room (some (.ofString name))

/-- Where a content has a type, and how many levels that is inside. -/
inductive Hole : Kind → Nat → (Json → Json) → Prop
  | type {make : TypeRef → TypeRef} : Hole (.ofType make) 0 id
  | first {make : TypeRef → TypeRef → TypeRef} {b : Json} :
      Hole (.ofPair make) 1 fun a => .array [a, b]
  | second {make : TypeRef → TypeRef → TypeRef} {a : Json} :
      Hole (.ofPair make) 1 fun b => .array [a, b]

inductive Cause
  /-- It is no type, however it is written. -/
  | malformed
  /-- It cannot be written so at its place. -/
  | misplaced

/-- Why a document is no type; `held` says that it is in what is held back. -/
inductive Flaw : Cause → (held : Bool) → Nat → Json → Prop
  | deep {held : Bool} {d : Json} : Flaw .malformed held 0 d
  | misshapen {held : Bool} {room : Nat} {d : Json} (misshapen : Misshapen ["kind", "of"] d) :
      Flaw .malformed held (room + 1) d
  | short {held : Bool} {room : Nat} {items : List Json} (short : items.length < 2) :
      Flaw .malformed held (room + 1) (.array items)
  | kindless {held : Bool} {room : Nat} {members : List (Json.Text × Json)}
      (missing : ∀ kind, (some "kind", kind) ∉ members) :
      Flaw .malformed held (room + 1) (.object members)
  | unknown {held : Bool} {room : Nat} {d : Json} {w : Written} (written : written? d = some w)
      (unknown : kindOf w.kind = none) : Flaw .malformed held (room + 1) d
  | deepKind {held : Bool} {d : Json} {w : Written} {members : List (Json.Text × Json)}
      (written : written? d = some w) (object : w.kind = .object members) :
      Flaw .malformed held 1 d
  | content {held : Bool} {room : Nat} {d : Json} {w : Written} {k : Kind}
      (written : written? d = some w) (kind : kindOf w.kind = some k)
      (other : ¬Fits k room w.content) : Flaw .malformed held (room + 1) d
  | spelling {held : Bool} {room : Nat} {d : Json} {w : Written} {k : Kind}
      (written : written? d = some w) (kind : kindOf w.kind = some k)
      (other : ¬Admits held w.listed w.kind) : Flaw .misplaced held (room + 1) d
  /-- What is held back has to be readable throughout, what is ignored in it too. -/
  | unsound {held : Bool} {room : Nat} {d content : Json} {w : Written}
      (written : written? d = some w) (early : w.early) (given : w.content = some content)
      (unsound : ¬content.sound room) : Flaw .misplaced held (room + 1) d
  | inside {cause : Cause} {held : Bool} {room levels : Nat} {d e : Json} {w : Written} {k : Kind}
      {hole : Json → Json} (written : written? d = some w) (kind : kindOf w.kind = some k)
      (isHole : Hole k levels hole) (given : w.content = some (hole e))
      (flaw : Flaw cause (held || w.early) room e) : Flaw cause held (room + levels + 1) d

/-- One change of a document, itself or a type in it. -/
inductive Change : Json → Json → Prop
  | reordered {members members' : List (Json.Text × Json)} (perm : members.Perm members') :
      Change (.object members) (.object members')
  | ignored {before after : List (Json.Text × Json)} {name : String} {value : Json}
      (unknown : name ∉ ["kind", "of"]) :
      Change (.object (before ++ after)) (.object (before ++ (some name, value) :: after))
  | listed {members : List (Json.Text × Json)} {kind content : Json}
      (first : (some "kind", kind) ∈ members) (second : (some "of", content) ∈ members) :
      Change (.object members) (.array [kind, content])
  | listedPlain {members : List (Json.Text × Json)} {kind : Json}
      (first : (some "kind", kind) ∈ members) (none : ∀ content, (some "of", content) ∉ members) :
      Change (.object members) (.array [kind, .null])
  | member {before after : List (Json.Text × Json)} {kind d d' : Json} {k : Kind} {levels : Nat}
      {hole : Json → Json} (first : (some "kind", kind) ∈ before ++ after)
      (known : kindOf kind = some k) (isHole : Hole k levels hole) (change : Change d d') :
      Change (.object (before ++ (some "of", hole d) :: after))
        (.object (before ++ (some "of", hole d') :: after))
  | item {kind d d' : Json} {k : Kind} {levels : Nat} {hole : Json → Json}
      (known : kindOf kind = some k) (isHole : Hole k levels hole) (change : Change d d') :
      Change (.array [kind, hole d]) (.array [kind, hole d'])

/-- What a kind makes of its content, given what the types in it are. -/
inductive Builds (type : Nat → Json → TypeRef → Prop) : Kind → Nat → Option Json → TypeRef → Prop
  | plain {t : TypeRef} {room : Nat} : Builds type (.plain t) room none t
  | null {t : TypeRef} {room : Nat} : Builds type (.plain t) room (some .null) t
  | type {make : TypeRef → TypeRef} {room : Nat} {d : Json} {t : TypeRef} (inner : type room d t) :
      Builds type (.ofType make) room (some d) (make t)
  | pair {make : TypeRef → TypeRef → TypeRef} {room : Nat} {a b : Json} {t u : TypeRef}
      (first : type room a t) (second : type room b u) :
      Builds type (.ofPair make) (room + 1) (some (.array [a, b])) (make t u)
  | name {make : String → TypeRef} {room : Nat} {name : String} :
      Builds type (.ofName make) room (some (.ofString name)) (make name)

variable {held : Bool} {room : Nat} {d kind : Json} {k : Kind} {t : TypeRef}

theorem readLeadingKind_eq_some_iff :
    readLeadingKind held kind = some k ↔ kindOf kind = some k ∧ Admits held true kind := by
  match kind with
  | .text none | .text (some _) => simp [readLeadingKind, kindOf, Admits]
  | .number _ => cases held <;> simp [readLeadingKind, kindOf, Admits]
  | .object [(some _, .null)] | .object [(some _, .object [])] =>
      simp [readLeadingKind, kindOf, Admits]
  | .null | .bool _ | .array _ | .object [] | .object [(none, _)] | .object (_ :: _ :: _)
  | .object [(some _, .bool _)] | .object [(some _, .number _)] | .object [(some _, .text _)]
  | .object [(some _, .array _)] | .object [(some _, .object (_ :: _))] =>
      simp [readLeadingKind, kindOf]

theorem readKind_eq_some_iff : readKind held room kind = some k ↔ kindOf kind = some k ∧
    Admits held false kind ∧ (room = 0 → ∀ members, kind ≠ .object members) := by
  match room, kind with
  | _, .text none => simp [readKind, readWordOf, kindOf]
  | _, .text (some _) => simp [readKind, readWordOf, kindOf, Admits]
  | 0, .object _ => simp [readKind, readWordOf]
  | _ + 1, .object [(some _, .null)] => simp [readKind, readWordOf, kindOf, Admits]
  | _ + 1, .object [(some _, .object [])] =>
      cases held <;> simp [readKind, kindOf, Admits]
  | _, .number _ => simp [readKind, readWordOf, Admits]
  | _, .null | _, .bool _ | _, .array _ => simp [readKind, readWordOf, kindOf]
  | _ + 1, .object [] | _ + 1, .object [(none, _)] | _ + 1, .object (_ :: _ :: _)
  | _ + 1, .object [(some _, .bool _)] | _ + 1, .object [(some _, .number _)]
  | _ + 1, .object [(some _, .text _)] | _ + 1, .object [(some _, .array _)]
  | _ + 1, .object [(some _, .object (_ :: _))] => simp [readKind, readWordOf, kindOf]

theorem not_admits_listed {members : List (Json.Text × Json)} :
    ¬Admits held true (.object members) := by
  rw [Admits.eq_def]
  split <;> simp_all

def Written.kind? (w : Written) (held : Bool) (room : Nat) : Option Kind :=
  if w.listed then readLeadingKind held w.kind else readKind held room w.kind

theorem Written.kind?_eq_some_iff {w : Written} : w.kind? held room = some k ↔
    kindOf w.kind = some k ∧ Admits held w.listed w.kind ∧
      (room = 0 → ∀ members, w.kind ≠ .object members) := by
  rw [kind?]
  split
  · next listed =>
    rw [readLeadingKind_eq_some_iff, listed]
    refine and_congr_right fun known => ⟨fun admits => ⟨admits, ?_⟩, And.left⟩
    rintro - members object
    exact not_admits_listed (object ▸ admits)
  · next listed => rw [readKind_eq_some_iff, Bool.eq_false_iff.2 listed]

theorem parts_eq (held : Bool) (room : Nat) (d : Json) :
    parts held room d = (written? d).bind fun w =>
      if w.early ∧ ¬w.content.all (·.sound room) then none
      else (w.kind? held room).map fun k => (k, w.content, held || w.early) := by
  match d with
  | .array [kind, content] => simp [parts, written?, Written.kind?]
  | .object members =>
      rw [parts, written?]
      generalize Json.fields ["kind", "of"] (.object members) = given
      rcases given with _ | ⟨_ | ⟨_ | kind, _ | ⟨content, _ | _⟩⟩⟩
      case some.cons.some.cons.nil => simp [Written.kind?]
      all_goals rfl
  | .null | .bool _ | .number _ | .text _ | .array [] | .array [_] | .array (_ :: _ :: _ :: _) =>
      rfl

def build (held : Bool) (room : Nat) : Kind → Option Json → Option TypeRef
  | .plain t, none | .plain t, some .null => some t
  | .ofType make, some d => (readWith held room d).map make
  | .ofPair make, some d => (readPair held room d).map fun p => make p.1 p.2
  | .ofName make, some d => (readText room d).map make
  | _, _ => none

theorem readWith_eq (held : Bool) (room : Nat) (d : Json) : readWith held (room + 1) d =
    (parts held room d).bind fun p => build p.2.2 room p.1 p.2.1 := by
  rw [readWith]
  cases parts held room d with
  | none => rfl
  | some p =>
      obtain ⟨k, content, held⟩ := p
      rcases k with t | make | make | make <;> rcases content with _ | content <;> try rfl
      cases content <;> rfl

theorem readPair_eq_some_iff {p : TypeRef × TypeRef} : readPair held room d = some p ↔
    ∃ n a b, room = n + 1 ∧ d = .array [a, b] ∧ readWith held n a = some p.1 ∧
      readWith held n b = some p.2 := by
  obtain ⟨t, u⟩ := p
  constructor
  · intro given
    match room, d with
    | n + 1, .array [a, b] =>
        simp only [readPair, Option.bind_eq_bind, Option.bind_eq_some_iff] at given
        obtain ⟨t', first, u', second, same⟩ := given
        cases same
        exact ⟨n, a, b, rfl, rfl, first, second⟩
  · rintro ⟨n, a, b, rfl, rfl, first, second⟩
    simp [readPair, first, second]

theorem build_eq_some_iff {content : Option Json} : build held room k content = some t ↔
    Builds (fun room e u => readWith held room e = some u) k room content t := by
  constructor
  · intro given
    rcases k with s | make | make | make <;> rcases content with _ | d
    case plain.none => cases given; exact .plain
    case plain.some =>
      cases d with
      | null => cases given; exact .null
      | bool | number | text | array | object => cases given
    case ofType.some =>
      obtain ⟨u, inner, rfl⟩ := Option.map_eq_some_iff.1 given
      exact .type inner
    case ofPair.some =>
      obtain ⟨p, pair, rfl⟩ := Option.map_eq_some_iff.1 given
      obtain ⟨n, a, b, rfl, rfl, first, second⟩ := readPair_eq_some_iff.1 pair
      exact .pair first second
    case ofName.some =>
      obtain ⟨name, text, rfl⟩ := Option.map_eq_some_iff.1 given
      cases d with
      | text value =>
          obtain rfl : value = some name := text
          exact .name
      | null | bool | number | array | object => cases text
    all_goals cases given
  · rintro (_ | _ | inner | ⟨first, second⟩ | _)
    · rfl
    · rfl
    · exact congrArg (Option.map _) inner
    · simp [build, readPair, first, second]
    · rfl

/-- A document is read from its kind and its content. -/
theorem readWith_eq_some_iff : readWith held (room + 1) d = some t ↔
    ∃ w k, written? d = some w ∧ w.kind? held room = some k ∧
      (w.early → ∀ content, w.content = some content → content.sound room) ∧
      Builds (fun room e u => readWith (held || w.early) room e = some u) k room w.content t := by
  simp only [readWith_eq, parts_eq, Option.bind_eq_some_iff, ← build_eq_some_iff]
  constructor
  · rintro ⟨p, ⟨w, written, parts⟩, given⟩
    split at parts
    · cases parts
    · next sound =>
      obtain ⟨k, kind, rfl⟩ := Option.map_eq_some_iff.1 parts
      refine ⟨w, k, written, kind, fun early content there => ?_, given⟩
      by_contra unsound
      exact sound ⟨early, by simpa [there] using unsound⟩
  · rintro ⟨w, k, written, kind, sound, given⟩
    refine ⟨(k, w.content, held || w.early), ⟨w, written, ?_⟩, given⟩
    rw [if_neg, kind, Option.map_some]
    rintro ⟨early, unsound⟩
    cases there : w.content with
    | none => simp [there] at unsound
    | some content => exact unsound (by simpa [there] using sound early content there)

theorem Builds.fits {type : Nat → Json → TypeRef → Prop} {content : Option Json}
    (builds : Builds type k room content t) : Fits k room content := by
  cases builds with
  | plain => exact .plain
  | null => exact .null
  | type => exact .type
  | pair => exact .pair
  | name => exact .name

/-- The types in a content that is read are read. -/
theorem Builds.inside {type : Nat → Json → TypeRef → Prop} {levels : Nat} {hole : Json → Json}
    {e : Json} (isHole : Hole k levels hole)
    (builds : Builds type k (room + levels) (some (hole e)) t) : ∃ u, type room e u := by
  cases isHole with
  | type =>
      obtain _ | _ | inner := builds
      exact ⟨_, inner⟩
  | first =>
      obtain _ | _ | _ | ⟨first, second⟩ := builds
      exact ⟨_, first⟩
  | second =>
      obtain _ | _ | _ | ⟨first, second⟩ := builds
      exact ⟨_, second⟩

/-- What is made of a content whose types are what they are for another reader too. -/
theorem Builds.imp {type type' : Nat → Json → TypeRef → Prop} {content : Option Json}
    (builds : Builds type k room content t)
    (each : ∀ {levels room' : Nat} {hole : Json → Json} {e : Json} {u : TypeRef},
      Hole k levels hole → content = some (hole e) → room = room' + levels → type room' e u →
        type' room' e u) :
    Builds type' k room content t := by
  cases builds with
  | plain => exact .plain
  | null => exact .null
  | type inner => exact .type (each .type rfl rfl inner)
  | pair first second => exact .pair (each .first rfl rfl first) (each .second rfl rfl second)
  | name => exact .name

/-- A type in a content is put in the place of one that is the same. -/
theorem Builds.replace {type type' : Nat → Json → TypeRef → Prop} {levels : Nat}
    {hole : Json → Json} {d' : Json} (isHole : Hole k levels hole)
    (builds : Builds type k room (some (hole d)) t)
    (changed : ∀ {room' u}, room = room' + levels → type room' d u → type' room' d' u)
    (each : ∀ {levels room' : Nat} {hole' : Json → Json} {e : Json} {u : TypeRef},
      Hole k levels hole' → hole d' = hole' e → room = room' + levels → type room' e u →
        type' room' e u) : Builds type' k room (some (hole d')) t := by
  cases isHole with
  | type =>
      obtain _ | _ | inner := builds
      exact .type (changed rfl inner)
  | first =>
      obtain _ | _ | _ | ⟨first, second⟩ := builds
      exact .pair (changed rfl first) (each .second rfl rfl second)
  | second =>
      obtain _ | _ | _ | ⟨first, second⟩ := builds
      exact .pair (each .first rfl rfl first) (changed rfl second)

theorem written?_of_misshapen (h : Misshapen ["kind", "of"] d) : written? d = none := by
  have none := fields_of_misshapen h
  match d with
  | .array [_, _] => exact absurd h (not_misshapen_array_iff.2 (Nat.le_refl 2))
  | .object members => rw [written?, none]
  | .null | .bool _ | .number _ | .text _ | .array [] | .array [_] | .array (_ :: _ :: _ :: _) =>
      rfl

theorem written?_object {members : List (Json.Text × Json)}
    (fits : ¬Misshapen ["kind", "of"] (.object members)) : written? (.object members) =
      (members.lookup (some "kind")).map fun kind =>
        ⟨kind, members.lookup (some "of"), false, contentFirst members⟩ := by
  have given : Json.fields ["kind", "of"] (.object members) =
      some [members.lookup (some "kind"), members.lookup (some "of")] :=
    fields_of_not_misshapen fits
  rw [written?, given]
  cases members.lookup (some "kind") <;> rfl

theorem flaw_of_written?_eq_none (none : written? d = none) :
    Flaw .malformed held (room + 1) d := by
  by_cases misshapen : Misshapen ["kind", "of"] d
  · exact .misshapen misshapen
  · cases d with
    | array items =>
        have few := not_misshapen_array_iff.1 misshapen
        match items with
        | [] | [_] => exact .short (by simp)
        | [_, _] => cases none
        | _ :: _ :: _ :: _ => simp at few
    | object members =>
        rw [written?_object misshapen, Option.map_eq_none_iff] at none
        exact .kindless (lookup_eq_none_iff_not_mem.1 none)
    | null | bool | number | text => exact absurd (.scalar (by simp) (by simp)) misshapen

theorem readWith_of_written?_eq_none (none : written? d = none) :
    readWith held (room + 1) d = Option.none := by
  rw [readWith_eq, parts_eq, none]
  rfl

/-- What holds of the kind and the content of a document that is read. -/
theorem exists_of_readWith {w : Written} (written : written? d = some w)
    (given : readWith held (room + 1) d = some t) : ∃ k, kindOf w.kind = some k ∧
      Admits held w.listed w.kind ∧ (room = 0 → ∀ members, w.kind ≠ .object members) ∧
      (w.early → ∀ content, w.content = some content → content.sound room) ∧
      Builds (fun room e u => readWith (held || w.early) room e = some u) k room w.content t := by
  obtain ⟨w', k, written', kind, sound, builds⟩ := readWith_eq_some_iff.1 given
  obtain rfl := Option.some.inj (written.symm.trans written')
  obtain ⟨known, admits, deep⟩ := Written.kind?_eq_some_iff.1 kind
  exact ⟨k, known, admits, deep, sound, builds⟩

/-- What is read has no flaw. -/
theorem Flaw.refused {cause : Cause} (flaw : Flaw cause held room d) (t : TypeRef) :
    readWith held room d ≠ some t := by
  intro given
  induction flaw generalizing t with
  | deep => cases given
  | misshapen misshapen =>
      rw [readWith_of_written?_eq_none (written?_of_misshapen misshapen)] at given
      cases given
  | @short _ _ items short =>
      match items with
      | [] | [_] => cases given
      | _ :: _ :: _ => exact absurd short (Nat.not_lt.2 (Nat.le_add_left 2 _))
  | @kindless _ _ members missing =>
      have none : written? (.object members) = none := by
        by_cases misshapen : Misshapen ["kind", "of"] (.object members)
        · exact written?_of_misshapen misshapen
        · rw [written?_object misshapen, lookup_eq_none_iff_not_mem.2 missing]
          rfl
      rw [readWith_of_written?_eq_none none] at given
      cases given
  | unknown written unknown =>
      obtain ⟨k, known, -⟩ := exists_of_readWith written given
      cases unknown.symm.trans known
  | deepKind written object =>
      obtain ⟨k, -, -, deep, -⟩ := exists_of_readWith written given
      exact deep rfl _ object
  | content written kind other =>
      obtain ⟨k, known, -, -, -, builds⟩ := exists_of_readWith written given
      obtain rfl := Option.some.inj (kind.symm.trans known)
      exact other builds.fits
  | spelling written kind other =>
      obtain ⟨k, -, admits, -⟩ := exists_of_readWith written given
      exact other admits
  | unsound written early there unsound =>
      obtain ⟨k, -, -, -, sound, -⟩ := exists_of_readWith written given
      exact unsound (sound early _ there)
  | inside written kind isHole there flaw ih =>
      obtain ⟨k, known, -, -, -, builds⟩ := exists_of_readWith written given
      obtain rfl := Option.some.inj (kind.symm.trans known)
      rw [there] at builds
      obtain ⟨u, inner⟩ := builds.inside isHole
      exact ih u inner

/-- What has no flaw is read. -/
theorem exists_readWith (fine : ∀ cause, ¬Flaw cause held room d) :
    ∃ t, readWith held room d = some t := by
  induction room using Nat.strongRecOn generalizing held d with
  | _ room ih =>
  cases room with
  | zero => exact absurd .deep (fine .malformed)
  | succ room =>
      cases written : written? d with
      | none => exact absurd (flaw_of_written?_eq_none written) (fine .malformed)
      | some w =>
          cases known : kindOf w.kind with
          | none => exact absurd (.unknown written known) (fine .malformed)
          | some k =>
              have kind : w.kind? held room = some k := by
                refine Written.kind?_eq_some_iff.2 ⟨known, ?_, ?_⟩
                · exact by_contra fun other => fine .misplaced (.spelling written known other)
                · rintro rfl members object
                  exact fine .malformed (.deepKind written object)
              have sound : w.early → ∀ content, w.content = some content → content.sound room :=
                fun early content there =>
                  by_contra fun unsound => fine .misplaced (.unsound written early there unsound)
              have fits : Fits k room w.content :=
                by_contra fun other => fine .malformed (.content written known other)
              have inner : ∀ {levels room' hole e}, Hole k levels hole → w.content = some (hole e) →
                  room = room' + levels → ∃ u, readWith (held || w.early) room' e = some u := by
                rintro levels room' hole e isHole there rfl
                exact ih room' (by omega) fun cause flaw =>
                  fine cause (.inside written known isHole there flaw)
              obtain ⟨t, builds⟩ : ∃ t, Builds (fun room e u =>
                  readWith (held || w.early) room e = some u) k room w.content t := by
                generalize w.content = content at fits inner
                cases fits with
                | plain => exact ⟨_, .plain⟩
                | null => exact ⟨_, .null⟩
                | type =>
                    obtain ⟨u, read⟩ := inner .type rfl rfl
                    exact ⟨_, .type read⟩
                | pair =>
                    obtain ⟨u, first⟩ := inner .first rfl rfl
                    obtain ⟨u', second⟩ := inner .second rfl rfl
                    exact ⟨_, .pair first second⟩
                | name => exact ⟨_, .name⟩
              exact ⟨t, readWith_eq_some_iff.2 ⟨w, k, written, kind, sound, builds⟩⟩

theorem readWith_eq_none_iff : readWith held room d = none ↔ ∃ cause, Flaw cause held room d := by
  constructor
  · intro none
    by_contra fine
    obtain ⟨t, given⟩ := exists_readWith (not_exists.1 fine)
    cases none.symm.trans given
  · rintro ⟨cause, flaw⟩
    exact Option.eq_none_iff_forall_ne_some.2 flaw.refused

/-- A document is read as another one of the same kind is, if nothing in it is misplaced and its
content makes the same. -/
theorem readWith_of_written {held' : Bool} {d' : Json} {w w' : Written}
    (written : written? d = some w) (written' : written? d' = some w') (same : w'.kind = w.kind)
    (given : readWith held (room + 1) d = some t)
    (orderly : ¬Flaw .misplaced held' (room + 1) d')
    (content : ∀ k, kindOf w.kind = some k →
      Builds (fun room e u => readWith (held || w.early) room e = some u) k room w.content t →
        Builds (fun room e u => readWith (held' || w'.early) room e = some u) k room w'.content t) :
    readWith held' (room + 1) d' = some t := by
  obtain ⟨k, known, admits, deep, sound, builds⟩ := exists_of_readWith written given
  have known' : kindOf w'.kind = some k := same ▸ known
  refine readWith_eq_some_iff.2 ⟨w', k, written', Written.kind?_eq_some_iff.2 ⟨known', ?_, ?_⟩, ?_,
    content k known builds⟩
  · exact by_contra fun other => orderly (.spelling written' known' other)
  · exact same ▸ deep
  · exact fun early content there =>
      by_contra fun unsound => orderly (.unsound written' early there unsound)

/-- It makes no difference whether a document was held back, if nothing in it is misplaced. -/
theorem readWith_of_orderly {held' : Bool} (given : readWith held room d = some t)
    (orderly : ¬Flaw .misplaced held' room d) : readWith held' room d = some t := by
  induction room using Nat.strongRecOn generalizing held held' d t with
  | _ room ih =>
  cases room with
  | zero => cases given
  | succ room =>
      obtain ⟨w, k, written, -⟩ := readWith_eq_some_iff.1 given
      refine readWith_of_written written written rfl given orderly fun k known builds => ?_
      refine builds.imp fun {levels room' hole e u} isHole there within inner => ?_
      subst within
      exact ih room' (by omega) inner fun flaw => orderly (.inside written known isHole there flaw)

theorem Builds.orderly {w : Written} {held' : Bool} {content : Option Json}
    (builds : Builds (fun room e u => readWith held room e = some u) k room content t)
    (written : written? d = some w) (known : kindOf w.kind = some k)
    (orderly : ¬Flaw .misplaced held' (room + 1) d) (same : w.content = content) :
    Builds (fun room e u => readWith (held' || w.early) room e = some u) k room content t := by
  refine builds.imp fun isHole there within inner => ?_
  subst within
  exact readWith_of_orderly inner fun flaw =>
    orderly (.inside written known isHole (same.trans there) flaw)

theorem written?_object_iff {members : List (Json.Text × Json)} {w : Written} :
    written? (.object members) = some w ↔ ¬Misshapen ["kind", "of"] (.object members) ∧
      members.lookup (some "kind") = some w.kind ∧ members.lookup (some "of") = w.content ∧
      w.listed = false ∧ w.early = contentFirst members := by
  by_cases misshapen : Misshapen ["kind", "of"] (.object members)
  · simp [written?_of_misshapen misshapen, misshapen]
  · rw [written?_object misshapen, Option.map_eq_some_iff]
    constructor
    · rintro ⟨kind, there, rfl⟩
      exact ⟨misshapen, there, rfl, rfl, rfl⟩
    · obtain ⟨kind, content, listed, early⟩ := w
      rintro ⟨-, there, rfl, rfl, rfl⟩
      exact ⟨kind, there, rfl⟩

theorem readWith_of_lookup {held' : Bool} {members members' : List (Json.Text × Json)}
    (fits' : ¬Misshapen ["kind", "of"] (.object members'))
    (same : ∀ name ∈ ["kind", "of"], members'.lookup (some name) = members.lookup (some name))
    (given : readWith held (room + 1) (.object members) = some t)
    (orderly : ¬Flaw .misplaced held' (room + 1) (.object members')) :
    readWith held' (room + 1) (.object members') = some t := by
  obtain ⟨w, -, written, -⟩ := readWith_eq_some_iff.1 given
  obtain ⟨-, kind, content, -⟩ := written?_object_iff.1 written
  have written' : written? (.object members') =
      some ⟨w.kind, w.content, false, contentFirst members'⟩ :=
    written?_object_iff.2 ⟨fits', (same "kind" (by decide)).trans kind,
      (same "of" (by decide)).trans content, rfl, rfl⟩
  exact readWith_of_written written written' rfl given orderly
    fun k known builds => builds.orderly written' known orderly rfl

/-- A document is read as before if a type in its content is. -/
theorem readWith_of_hole {held' : Bool} {d' e e' : Json} {w w' : Written} {levels : Nat}
    {hole : Json → Json} (written : written? d = some w) (written' : written? d' = some w')
    (same : w'.kind = w.kind) (known : kindOf w.kind = some k) (isHole : Hole k levels hole)
    (there : w.content = some (hole e)) (there' : w'.content = some (hole e'))
    (inner : ∀ {held held' room u}, readWith held room e = some u →
      ¬Flaw .misplaced held' room e' → readWith held' room e' = some u)
    (given : readWith held (room + 1) d = some t)
    (orderly : ¬Flaw .misplaced held' (room + 1) d') : readWith held' (room + 1) d' = some t := by
  refine readWith_of_written written written' same given orderly fun k' known' builds => ?_
  obtain rfl := Option.some.inj (known.symm.trans known')
  rw [there] at builds
  rw [there']
  have fine : ∀ {levels room' hole'} {f : Json}, Hole k levels hole' → hole e' = hole' f →
      room = room' + levels → ¬Flaw .misplaced (held' || w'.early) room' f := by
    rintro levels room' hole' f isHole at_ rfl flaw
    exact orderly (.inside written' (same ▸ known) isHole (there'.trans (congrArg some at_)) flaw)
  refine builds.replace isHole (fun within read => inner read (fine isHole rfl within))
    fun isHole at_ within read => readWith_of_orderly read (fine isHole at_ within)

theorem exists_room (given : readWith held room d = some t) : ∃ n, room = n + 1 := by
  cases room with
  | zero => cases given
  | succ n => exact ⟨n, rfl⟩

/-- A document is read as it was before a change, unless it has something misplaced then. -/
theorem Change.kept {held' : Bool} {d' : Json} (change : Change d d')
    (given : readWith held room d = some t) (orderly : ¬Flaw .misplaced held' room d') :
    readWith held' room d' = some t := by
  induction change generalizing held held' room t with
  | reordered perm =>
      obtain ⟨room, rfl⟩ := exists_room given
      obtain ⟨w, k, written, -⟩ := readWith_eq_some_iff.1 given
      obtain ⟨fits', same⟩ := fits_reordered perm (written?_object_iff.1 written).1
      exact readWith_of_lookup fits' same given orderly
  | ignored unknown =>
      obtain ⟨room, rfl⟩ := exists_room given
      obtain ⟨w, k, written, -⟩ := readWith_eq_some_iff.1 given
      obtain ⟨fits', same⟩ := fits_ignored unknown (written?_object_iff.1 written).1
      exact readWith_of_lookup fits' same given orderly
  | listed first second =>
      obtain ⟨room, rfl⟩ := exists_room given
      obtain ⟨w, k, written, -⟩ := readWith_eq_some_iff.1 given
      obtain ⟨fits, kind, content, -⟩ := written?_object_iff.1 written
      rw [(lookup_of_fits fits (by decide)).2 first] at kind
      rw [(lookup_of_fits fits (by decide)).2 second] at content
      refine readWith_of_written written rfl (Option.some.inj kind) given orderly
        fun k known builds => ?_
      rw [← content] at builds
      exact builds.orderly rfl (Option.some.inj kind ▸ known) orderly rfl
  | listedPlain first none =>
      obtain ⟨room, rfl⟩ := exists_room given
      obtain ⟨w, k, written, -⟩ := readWith_eq_some_iff.1 given
      obtain ⟨fits, kind, content, -⟩ := written?_object_iff.1 written
      rw [(lookup_of_fits fits (by decide)).2 first] at kind
      rw [lookup_eq_none_iff_not_mem.2 none] at content
      refine readWith_of_written written rfl (Option.some.inj kind) given orderly
        fun k known builds => ?_
      rw [← content] at builds
      cases builds with
      | plain => exact .null
  | @member before after kind d d' k levels hole first known isHole change ih =>
      obtain ⟨room, rfl⟩ := exists_room given
      obtain ⟨w, -, written, -⟩ := readWith_eq_some_iff.1 given
      obtain ⟨fits, there, content, -⟩ := written?_object_iff.1 written
      have fits' := fits_replaced (hole d') fits
      have kindHere : ∀ d, (some "kind", kind) ∈ before ++ (some "of", hole d) :: after := by
        intro d
        rw [List.mem_append, List.mem_cons]
        exact (List.mem_append.1 first).imp_right .inr
      rw [(lookup_of_fits fits (by decide)).2 (kindHere d)] at there
      rw [(lookup_of_fits fits (by decide)).2 List.mem_append_cons_self] at content
      have written' : written? (.object (before ++ (some "of", hole d') :: after)) =
          some ⟨kind, some (hole d'), false, contentFirst _⟩ :=
        written?_object_iff.2 ⟨fits', (lookup_of_fits fits' (by decide)).2 (kindHere d'),
          (lookup_of_fits fits' (by decide)).2 List.mem_append_cons_self, rfl, rfl⟩
      exact readWith_of_hole written written' (Option.some.inj there)
        (Option.some.inj there ▸ known) isHole content.symm rfl ih given orderly
  | @item kind d d' k levels hole known isHole change ih =>
      obtain ⟨room, rfl⟩ := exists_room given
      have written : ∀ e, written? (.array [kind, e]) = some ⟨kind, some e, true, false⟩ :=
        fun e => rfl
      exact readWith_of_hole (written (hole d)) (written (hole d')) rfl known isHole rfl rfl ih
        given orderly

def shape : Shape where
  fault room d := ∃ cause, Flaw cause false room d
  change room d d' := Change d d' ∧ ¬Flaw .misplaced false room d'

theorem describes : shape.Describes read where
  refused := readWith_eq_none_iff
  kept change given := change.1.kept given change.2

end Wiring.TypeRef
