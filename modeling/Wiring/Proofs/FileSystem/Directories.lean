import Wiring.Proofs.FileSystem.Pieces
import Wiring.Proofs.FileSystem.Storing

/-!
Directories that are made on demand. Once the directories of a path have been made, the path leads
to one of them, and to have them made again changes nothing for as long as the directories are the
same.
-/
namespace Wiring

namespace FileSystem

variable {fs fs' fs'' : FileSystem} {p : Path} {place : Place}

theorem leadsToDirectory_iff : fs.leadsToDirectory p ↔
    permitted p = .ok () ∧ ∃ place, fs.Arrives (fs.origin p) p.components place := by
  unfold leadsToDirectory
  cases hp : permitted p with
  | error e => simp
  | ok _ =>
      constructor
      · intro h
        cases hw : fs.walk (fs.origin p) p.components with
        | error e => simp [hw] at h
        | ok place =>
            simp only [hw] at h
            exact ⟨rfl, place, arrives_of_walk hw h⟩
      · rintro ⟨-, place, arrives⟩
        simp only [arrives.walk]
        exact arrives.at_directory

theorem SameDirectories.leadsToDirectory (same : SameDirectories fs fs')
    (leads : fs.leadsToDirectory p) : fs'.leadsToDirectory p := by
  rw [leadsToDirectory_iff] at leads ⊢
  obtain ⟨hp, place, arrives⟩ := leads
  exact ⟨hp, place, same.origin ▸ same.arrives_iff.2 arrives⟩

/-- A directory that a path leads to is not made again. -/
theorem makeDirectory_of_leads (leads : fs.leadsToDirectory p) :
    fs.makeDirectory p = .error .exists := by
  obtain ⟨hp, place, arrives⟩ := leadsToDirectory_iff.1 leads
  unfold makeDirectory
  cases he : ending p with
  | dots all =>
      obtain ⟨rest, split⟩ := ending_dots he
      obtain ⟨mid, first, -⟩ := (split ▸ arrives).split
      have there := walkDirectory_eq_ok_iff.2 first
      simp [hp, there, bind, Except.bind]
  | name before name slashed =>
      obtain ⟨split, named⟩ := ending_name he
      obtain ⟨parent, first, last⟩ := (split ▸ arrives).split
      have there := walkDirectory_eq_ok_iff.2 first
      cases last with
      | up => exact absurd rfl named
      | down _ _ short further =>
          simp [hp, there, bind, Except.bind, Nat.not_lt.2 short,
            node?_of_directory further.from_directory]

theorem leads_of_makeDirectory (made : fs.makeDirectory p = .ok fs') : fs'.leadsToDirectory p := by
  unfold makeDirectory at made
  cases hp : permitted p with
  | error e => simp [hp, bind, Except.bind] at made
  | ok _ =>
      cases he : ending p with
      | dots all =>
          simp only [hp, he, bind, Except.bind] at made
          split at made <;> cases made
      | name before name slashed =>
          obtain ⟨split, named⟩ := ending_name he
          cases hw : fs.walkDirectory p before with
          | error e => simp [hp, he, hw, bind, Except.bind] at made
          | ok parent =>
              simp only [hp, he, hw, bind, Except.bind] at made
              split at made
              · cases made
              · next short =>
                  split at made
                  · cases made
                  · cases made
                    have grown (q : Place) (h : fs.isDirectory q) :
                        (fs.put (parent ++ [name]) .directory).isDirectory q := by
                      rw [isDirectory, node?_put (by simp)]
                      split
                      · rfl
                      · exact h
                    have first := (walkDirectory_eq_ok_iff.1 hw).mono grown
                    have there : (fs.put (parent ++ [name]) .directory).isDirectory
                        (parent ++ [name]) := by
                      rw [isDirectory, node?_put (by simp), if_pos rfl]
                      rfl
                    rw [leadsToDirectory_iff, split]
                    exact ⟨hp, _, first.append
                      (.down first.at_directory named (Nat.le_of_not_lt short) (.here there))⟩

theorem leads_of_ensureDirectory (ensured : fs.ensureDirectory p = (none, fs')) :
    fs'.leadsToDirectory p := by
  unfold ensureDirectory at ensured
  split at ensured
  · next made =>
      cases ensured
      exact leads_of_makeDirectory made
  · split at ensured
    · next leads =>
        cases ensured
        exact leads
    · cases ensured

theorem leads_of_ensureDirectoriesWith {fuel : Nat} {parent : Path}
    (hp : p.parent? = some parent)
    (ensured : fs.ensureDirectoriesWith (fuel + 1) p = (none, fs')) : fs'.leadsToDirectory p := by
  simp only [ensureDirectoriesWith, hp] at ensured
  split at ensured
  · split at ensured
    · exact leads_of_ensureDirectory ensured
    · next refused =>
        exact absurd ensured (refused _)
  · exact leads_of_ensureDirectory ensured

theorem ensureDirectories_of_no_parent (hp : p.parent? = none) :
    fs.ensureDirectories p = (none, fs) := by
  unfold ensureDirectories
  cases p.text.length with
  | zero => rfl
  | succ n => simp [ensureDirectoriesWith, hp]

theorem ensureDirectories_of_leads (leads : fs.leadsToDirectory p) :
    fs.ensureDirectories p = (none, fs) := by
  unfold ensureDirectories
  cases p.text.length with
  | zero => rfl
  | succ n =>
      cases hp : p.parent? with
      | none => simp [ensureDirectoriesWith, hp]
      | some parent =>
          simp [ensureDirectoriesWith, hp, makeDirectory_of_leads leads, ensureDirectory, leads]

theorem leads_of_ensureDirectories {parent : Path} (hp : p.parent? = some parent)
    (ensured : fs.ensureDirectories p = (none, fs')) : fs'.leadsToDirectory p := by
  unfold ensureDirectories at ensured
  cases hl : p.text.length with
  | zero =>
      obtain ⟨text⟩ := p
      obtain rfl := List.length_eq_zero_iff.1 hl
      cases hp
  | succ n =>
      rw [hl] at ensured
      exact leads_of_ensureDirectoriesWith hp ensured

/-- Directories that have been made are there for as long as no directory changes. -/
theorem ensureDirectories_again (ensured : fs.ensureDirectories p = (none, fs'))
    (same : SameDirectories fs' fs'') : fs''.ensureDirectories p = (none, fs'') := by
  cases hp : p.parent? with
  | none => exact ensureDirectories_of_no_parent hp
  | some parent =>
      exact ensureDirectories_of_leads
        (same.leadsToDirectory (leads_of_ensureDirectories hp ensured))

end FileSystem

end Wiring
