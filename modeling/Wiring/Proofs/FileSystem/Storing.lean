import Wiring.FileSystem

/-!
Where files are stored. The place that a path leads to depends on the directories alone, and
writing a file changes no directory, so what is written under one path is found there as long as
nothing else is written to the same place.
-/
namespace Wiring

namespace FileSystem

def bytesAt? (fs : FileSystem) (place : Place) : Option (List UInt8) :=
  match fs.node? place with
  | some (.file bytes _) => some bytes
  | _ => none

/-- The place at which a path names a file, be it there already or yet to be made. -/
def target? (fs : FileSystem) (p : Path) : Option Place :=
  match permitted p, ending p with
  | .ok (), .name before name false =>
      match fs.walkDirectory p before with
      | .ok parent =>
          if maxNameBytes < byteLength name ∨ fs.isDirectory (parent ++ [name]) then none
          else some (parent ++ [name])
      | .error _ => none
  | _, _ => none

def store (fs : FileSystem) (place : Place) (bytes : List UInt8) : FileSystem :=
  if fs.bytesAt? place = some bytes then fs
  else { fs.put place (.file bytes fs.clock) with clock := fs.clock + 1 }

structure SameDirectories (fs fs' : FileSystem) : Prop where
  here : fs'.here = fs.here
  directory : ∀ place, fs'.isDirectory place = fs.isDirectory place

variable {fs fs' fs'' : FileSystem} {p : Path} {place : Place} {bytes : List UInt8}

theorem SameDirectories.refl (fs : FileSystem) : SameDirectories fs fs := ⟨rfl, fun _ => rfl⟩

theorem SameDirectories.symm (same : SameDirectories fs fs') : SameDirectories fs' fs :=
  ⟨same.here.symm, fun place => (same.directory place).symm⟩

theorem SameDirectories.trans (same : SameDirectories fs fs') (same' : SameDirectories fs' fs'') :
    SameDirectories fs fs'' :=
  ⟨same'.here.trans same.here, fun place => (same'.directory place).trans (same.directory place)⟩

theorem node?_put {n : Node} (hp : place ≠ []) (q : Place) :
    (fs.put place n).node? q = if q = place then some n else fs.node? q := by
  unfold node? put
  by_cases hq : q = place
  · subst hq
    simp [hp]
  · rw [if_neg hq]
    split
    · rfl
    · rw [List.lookup_cons, beq_eq_false_iff_ne.2 hq]
      induction fs.nodes with
      | nil => rfl
      | cons e rest ih =>
          obtain ⟨place', n'⟩ := e
          by_cases he : place' = place
          · simpa [he, List.lookup_cons, beq_eq_false_iff_ne.2 hq] using ih
          · simp only [ne_eq, decide_not] at ih ⊢
            simp only [List.filter_cons, he, decide_false, Bool.not_false, if_true,
              List.lookup_cons, ih]

section Walk

variable {cs cs' : List (List Char)} {start mid : Place}

/-- The walks that come to a directory, through directories alone. -/
inductive Arrives (fs : FileSystem) : Place → List (List Char) → Place → Prop
  | here {place : Place} (h : fs.isDirectory place) : Arrives fs place [] place
  | up {start place : Place} {rest : List (List Char)} (h : fs.isDirectory start)
      (further : Arrives fs start.dropLast rest place) : Arrives fs start (['.', '.'] :: rest) place
  | down {start place : Place} {c : List Char} {rest : List (List Char)}
      (h : fs.isDirectory start) (named : c ≠ ['.', '.']) (short : byteLength c ≤ maxNameBytes)
      (further : Arrives fs (start ++ [c]) rest place) : Arrives fs start (c :: rest) place

theorem Arrives.from_directory (arrives : fs.Arrives start cs place) : fs.isDirectory start := by
  cases arrives with
  | here h | up h | down h => exact h

theorem Arrives.at_directory (arrives : fs.Arrives start cs place) : fs.isDirectory place := by
  induction arrives with
  | here h => exact h
  | up _ _ ih | down _ _ _ _ ih => exact ih

theorem node?_of_directory (h : fs.isDirectory place) : fs.node? place = some .directory := by
  simpa [isDirectory] using h

theorem Arrives.walk (arrives : fs.Arrives start cs place) : fs.walk start cs = .ok place := by
  induction arrives with
  | here => rfl
  | up h _ ih => simp [FileSystem.walk, h, ih]
  | down h named short further ih =>
      simp [FileSystem.walk, h, named, Nat.not_lt.2 short, ih,
        node?_of_directory further.from_directory]

theorem arrives_of_walk (walks : fs.walk start cs = .ok place) (h : fs.isDirectory place) :
    fs.Arrives start cs place := by
  induction cs generalizing start with
  | nil =>
      cases walks
      exact .here h
  | cons c rest ih =>
      rw [FileSystem.walk] at walks
      split at walks
      · cases walks
      · next directory =>
          have directory := Decidable.not_not.1 directory
          split at walks
          · next hc =>
              subst hc
              exact .up directory (ih walks)
          · next named =>
              split at walks
              · cases walks
              · next short =>
                  split at walks
                  · cases walks
                  · exact .down directory named (Nat.le_of_not_lt short) (ih walks)

/-- A walk is still good where there are more directories. -/
theorem Arrives.mono (arrives : fs.Arrives start cs place)
    (grown : ∀ place, fs.isDirectory place → fs'.isDirectory place) :
    fs'.Arrives start cs place := by
  induction arrives with
  | here h => exact .here (grown _ h)
  | up h _ ih => exact .up (grown _ h) ih
  | down h named short _ ih => exact .down (grown _ h) named short ih

theorem Arrives.append (first : fs.Arrives start cs mid) (last : fs.Arrives mid cs' place) :
    fs.Arrives start (cs ++ cs') place := by
  induction first with
  | here => exact last
  | up h _ ih => exact .up h (ih last)
  | down h named short _ ih => exact .down h named short (ih last)

theorem Arrives.split (arrives : fs.Arrives start (cs ++ cs') place) :
    ∃ mid, fs.Arrives start cs mid ∧ fs.Arrives mid cs' place := by
  induction cs generalizing start with
  | nil => exact ⟨start, .here arrives.from_directory, arrives⟩
  | cons c rest ih =>
      cases arrives with
      | up h further =>
          obtain ⟨mid, first, last⟩ := ih further
          exact ⟨mid, .up h first, last⟩
      | down h named short further =>
          obtain ⟨mid, first, last⟩ := ih further
          exact ⟨mid, .down h named short first, last⟩

theorem walkDirectory_eq_ok_iff {pieces : List (List Char)} :
    fs.walkDirectory p pieces = .ok place ↔ fs.Arrives (fs.origin p) (steps pieces) place := by
  unfold walkDirectory
  constructor
  · intro h
    cases hw : fs.walk (fs.origin p) (steps pieces) with
    | error e => simp [hw, bind, Except.bind] at h
    | ok there =>
        simp only [hw, bind, Except.bind] at h
        split at h
        · next directory =>
            cases h
            exact arrives_of_walk hw directory
        · cases h
  · intro arrives
    simp [arrives.walk, bind, Except.bind, arrives.at_directory]

theorem SameDirectories.origin (same : SameDirectories fs fs') : fs'.origin p = fs.origin p := by
  rw [FileSystem.origin, FileSystem.origin, same.here]

theorem SameDirectories.arrives_iff (same : SameDirectories fs fs') :
    fs'.Arrives start cs place ↔ fs.Arrives start cs place :=
  ⟨fun arrives => arrives.mono fun q directory => by rwa [← same.directory],
    fun arrives => arrives.mono fun q directory => by rwa [same.directory]⟩

theorem SameDirectories.walkDirectory_eq_ok_iff (same : SameDirectories fs fs')
    {pieces : List (List Char)} :
    fs'.walkDirectory p pieces = .ok place ↔ fs.walkDirectory p pieces = .ok place := by
  rw [FileSystem.walkDirectory_eq_ok_iff, FileSystem.walkDirectory_eq_ok_iff, same.origin,
    same.arrives_iff]

end Walk

section Target

theorem target?_eq_some_iff : fs.target? p = some place ↔
    permitted p = .ok () ∧ ∃ before name parent, ending p = .name before name false ∧
      fs.walkDirectory p before = .ok parent ∧ byteLength name ≤ maxNameBytes ∧
        fs.isDirectory (parent ++ [name]) = false ∧ place = parent ++ [name] := by
  unfold target?
  constructor
  · intro h
    split at h
    · next before name hp he =>
        refine ⟨hp, before, name, ?_⟩
        split at h
        · next parent hw =>
            split at h
            · cases h
            · next free =>
                obtain ⟨short, free⟩ := not_or.1 free
                cases h
                exact ⟨parent, he, hw, Nat.le_of_not_lt short, Bool.eq_false_iff.2 free, rfl⟩
        · cases h
    · cases h
  · rintro ⟨hp, before, name, parent, he, hw, short, free, rfl⟩
    rw [hp, he]
    simp only [hw, free, Bool.false_eq_true, or_false, if_neg (Nat.not_lt.2 short)]

theorem ne_nil_of_target (h : fs.target? p = some place) : place ≠ [] := by
  obtain ⟨-, _, _, _, -, -, -, -, rfl⟩ := target?_eq_some_iff.1 h
  simp

theorem not_directory_of_target (h : fs.target? p = some place) :
    fs.isDirectory place = false := by
  obtain ⟨-, _, _, _, -, -, -, free, rfl⟩ := target?_eq_some_iff.1 h
  exact free

theorem SameDirectories.target? (same : SameDirectories fs fs') (p : Path) :
    fs'.target? p = fs.target? p := by
  apply Option.ext
  intro place
  simp only [target?_eq_some_iff, same.walkDirectory_eq_ok_iff, same.directory]

theorem bytesAt?_eq_some_iff :
    fs.bytesAt? place = some bytes ↔ ∃ stamp, fs.node? place = some (.file bytes stamp) := by
  unfold bytesAt?
  cases fs.node? place with
  | none => simp
  | some n => cases n <;> simp

theorem node?_store (hp : place ≠ []) (changed : fs.bytesAt? place ≠ some bytes) (q : Place) :
    (fs.store place bytes).node? q =
      if q = place then some (.file bytes fs.clock) else fs.node? q := by
  rw [store, if_neg changed]
  exact node?_put hp q

theorem bytesAt?_store (hp : place ≠ []) (q : Place) :
    (fs.store place bytes).bytesAt? q = if q = place then some bytes else fs.bytesAt? q := by
  by_cases there : fs.bytesAt? place = some bytes
  · rw [store, if_pos there]
    split
    · next hq => rw [hq, there]
    · rfl
  · rw [bytesAt?, node?_store hp there]
    by_cases hq : q = place
    · rw [if_pos hq, if_pos hq]
    · rw [if_neg hq, if_neg hq]
      rfl

theorem sameDirectories_store (hp : place ≠ []) (free : fs.isDirectory place = false) :
    SameDirectories fs (fs.store place bytes) := by
  by_cases there : fs.bytesAt? place = some bytes
  · rw [store, if_pos there]
    exact .refl fs
  · refine ⟨by rw [store, if_neg there]; rfl, fun q => ?_⟩
    rw [isDirectory, node?_store hp there]
    split
    · next hq =>
        rw [hq, free]
        rfl
    · rfl

theorem store_of_there (there : fs.bytesAt? place = some bytes) : fs.store place bytes = fs :=
  if_pos there

end Target

section ReadWrite

theorem read_of_target (h : fs.target? p = some place) :
    fs.read p = match fs.bytesAt? place with
      | some bytes => .ok bytes
      | none => .error .notFound := by
  obtain ⟨hp, before, name, parent, he, hw, short, free, rfl⟩ := target?_eq_some_iff.1 h
  simp only [read, hp, he, hw, bind, Except.bind, if_neg (Nat.not_lt.2 short), bytesAt?]
  cases hn : fs.node? (parent ++ [name]) with
  | none => rfl
  | some n =>
      cases n with
      | file => rfl
      | directory => simp [isDirectory, hn] at free

theorem target_of_read (h : fs.read p = .ok bytes) :
    ∃ place, fs.target? p = some place ∧ fs.bytesAt? place = some bytes := by
  unfold read at h
  cases hp : permitted p with
  | error e => simp [hp, bind, Except.bind] at h
  | ok _ =>
      cases he : ending p with
      | dots => simp [hp, he, bind, Except.bind] at h
      | name before name slashed =>
          cases hw : fs.walkDirectory p before with
          | error e => simp [hp, he, hw, bind, Except.bind] at h
          | ok parent =>
              simp only [hp, he, hw, bind, Except.bind] at h
              split at h
              · cases h
              · next short =>
                  split at h
                  · cases h
                  · cases h
                  · next old stamp hn =>
                      cases slashed with
                      | true => cases h
                      | false =>
                          cases h
                          have free : fs.isDirectory (parent ++ [name]) = false := by
                            simp [isDirectory, hn]
                          exact ⟨_, target?_eq_some_iff.2 ⟨hp, before, name, parent, he, hw,
                            Nat.le_of_not_lt short, free, rfl⟩, bytesAt?_eq_some_iff.2 ⟨_, hn⟩⟩

theorem write_of_target (h : fs.target? p = some place) :
    fs.write p bytes =
      .ok { fs.put place (.file bytes fs.clock) with clock := fs.clock + 1 } := by
  obtain ⟨hp, before, name, parent, he, hw, short, free, rfl⟩ := target?_eq_some_iff.1 h
  simp only [write, hp, he, hw, bind, Except.bind, if_neg (Nat.not_lt.2 short), free,
    Bool.false_eq_true, if_false]

theorem write_of_no_target (h : fs.target? p = none) (bytes : List UInt8) :
    ∃ e, fs.write p bytes = .error e := by
  cases hw : fs.write p bytes with
  | error e => exact ⟨e, rfl⟩
  | ok after =>
      exfalso
      unfold write at hw
      cases hp : permitted p with
      | error e => simp [hp, bind, Except.bind] at hw
      | ok _ =>
          cases he : ending p with
          | dots all =>
              simp only [hp, he, bind, Except.bind] at hw
              split at hw
              · cases hw
              · split at hw <;> cases hw
          | name before name slashed =>
              cases hd : fs.walkDirectory p before with
              | error e => simp [hp, he, hd, bind, Except.bind] at hw
              | ok parent =>
                  simp only [hp, he, hd, bind, Except.bind] at hw
                  split at hw
                  · cases hw
                  · next plain =>
                      split at hw
                      · cases hw
                      · next short =>
                          split at hw
                          · cases hw
                          · next free =>
                              obtain rfl : slashed = false := Bool.eq_false_iff.2 plain
                              have target := target?_eq_some_iff.2 ⟨hp, before, name, parent, he,
                                hd, Nat.le_of_not_lt short, Bool.eq_false_iff.2 free, rfl⟩
                              cases h.symm.trans target

theorem writeIfChanged_of_target (h : fs.target? p = some place) :
    fs.writeIfChanged p bytes = (none, fs.store place bytes) := by
  rw [writeIfChanged, read_of_target h, write_of_target h, store]
  cases fs.bytesAt? place with
  | none => rfl
  | some old =>
      by_cases same : old = bytes
      · simp [same]
      · simp [same, attempt]

theorem writeIfChanged_of_no_target (h : fs.target? p = none) (bytes : List UInt8) :
    ∃ e, fs.writeIfChanged p bytes = (some e, fs) := by
  obtain ⟨e, hw⟩ := write_of_no_target h bytes
  refine ⟨e, ?_⟩
  unfold writeIfChanged
  cases hr : fs.read p with
  | error => rw [hw]; rfl
  | ok old =>
      obtain ⟨place, target, -⟩ := target_of_read hr
      cases h.symm.trans target

end ReadWrite

end FileSystem

end Wiring
