import Mathlib.Data.List.TakeWhile
import Wiring.Config.Environment

/-!
Flags as people write them. A flag is read from a word of its own, in whatever case its letters are
and whatever blanks are around it, and from nothing else: no character outside ASCII becomes one of
the letters of those words.
-/
namespace Wiring

namespace Text

variable {c : Char} {cs : List Char}

/-- What is left of a text whose ends are not blank, once the blanks around it are taken off. -/
theorem trimChars_eq_iff {word : List Char} (first : ∃ c ∈ word.head?, isBlank c = false)
    (last : ∃ c ∈ word.getLast?, isBlank c = false) :
    trimChars cs = word ↔ ∃ before after, cs = before ++ word ++ after ∧
      (∀ c ∈ before, isBlank c) ∧ ∀ c ∈ after, isBlank c := by
  constructor
  · rintro rfl
    refine ⟨cs.takeWhile isBlank, ((cs.dropWhile isBlank).reverse.takeWhile isBlank).reverse, ?_,
      fun c hc => List.mem_takeWhile_imp hc,
      fun c hc => List.mem_takeWhile_imp (List.mem_reverse.1 hc)⟩
    rw [trimChars, List.append_assoc, ← List.reverse_append, List.takeWhile_append_dropWhile,
      List.reverse_reverse, List.takeWhile_append_dropWhile]
  · rintro ⟨before, after, rfl, blank, blank'⟩
    obtain ⟨c, hc, plain⟩ := first
    obtain ⟨d, hd, plain'⟩ := last
    have start : (before ++ word ++ after).dropWhile isBlank = word ++ after := by
      rw [List.append_assoc, List.dropWhile_append_of_pos blank]
      obtain ⟨more, rfl⟩ := List.head?_eq_some_iff.1 hc
      exact List.dropWhile_cons_of_neg (by simp [plain])
    have stop : (word ++ after).reverse.dropWhile isBlank = word.reverse := by
      rw [List.reverse_append,
        List.dropWhile_append_of_pos fun c hc => blank' c (List.mem_reverse.1 hc)]
      obtain ⟨more, rfl⟩ := List.getLast?_eq_some_iff.1 hd
      rw [List.reverse_append, List.reverse_singleton, List.singleton_append,
        List.dropWhile_cons_of_neg (by simp [plain'])]
    rw [trimChars, start, stop, List.reverse_reverse]

theorem code_of_isUpper (up : c.isUpper) : 65 ≤ c.toNat ∧ c.toNat ≤ 90 := by
  have both : 65 ≤ c.val ∧ c.val ≤ 90 := of_decide_eq_true up
  simpa [UInt32.le_iff_toNat_le] using both

theorem isAlpha_toLower (up : c.isUpper) : c.toLower.isAlpha := by
  have small : ∀ n < 91, 65 ≤ n → (Char.ofNat n).toLower.isAlpha := by decide
  obtain ⟨low, high⟩ := code_of_isUpper up
  simpa only [Char.ofNat_toNat] using small c.toNat (by omega) low

theorem toLower_of_not_isUpper (capital : ¬c.isUpper) : c.toLower = c :=
  dif_neg fun up => capital (decide_eq_true up)

theorem toNat_ofNat (n : Nat) : (Char.ofNat n).toNat = n ∨ (Char.ofNat n).toNat = 0 := by
  by_cases valid : n.isValidChar
  · left
    exact congrArg Char.toNat (dif_pos valid : Char.ofNat n = Char.ofNatAux n valid)
  · right
    exact congrArg Char.toNat (dif_neg valid)

theorem toLower_ascii (ascii : c.toNat < 128) : toLower c = [c.toLower] := by
  have runs : toLowerRuns.all fun r => 128 ≤ r.1 || r == (65, 90, 1, 32) := by decide +kernel
  have capitals : (65, 90, 1, 32) ∈ toLowerRuns := List.mem_cons_self
  have texts : toLowerTexts.lookup c.toNat = none := by
    simp only [toLowerTexts, List.lookup_eq_none_iff, List.forall_mem_singleton, bne_iff_ne]
    omega
  rw [toLower, mapCase, texts]
  dsimp only
  split
  · next first last step distance found =>
    have inside := List.find?_some found
    have first := List.all_eq_true.1 runs _ (List.mem_of_find?_eq_some found)
    simp only [Bool.and_eq_true, Bool.or_eq_true, decide_eq_true_eq, beq_iff_eq, Prod.mk.injEq]
      at inside first
    obtain beyond | ⟨rfl, rfl, rfl, rfl⟩ := first
    · omega
    · have lower : ∀ n < 91, 65 ≤ n → [Char.ofNat (n + 32)] = [(Char.ofNat n).toLower] := by decide
      have shift : ((c.toNat : Int) + 32).toNat = c.toNat + 32 := by omega
      simpa only [shift, Char.ofNat_toNat] using lower c.toNat (by omega) inside.1.1
  · next none =>
    have capital : ¬c.isUpper := fun up => by
      have := code_of_isUpper up
      have outside := List.find?_eq_none.1 none _ capitals
      simp [this, Nat.mod_one] at outside
    rw [toLower_of_not_isUpper capital]

theorem toLower_ne_nil (c : Char) : toLower c ≠ [] := by
  have texts : ∀ t ∈ toLowerTexts, t.2 ≠ [] := by decide
  rw [toLower, mapCase]
  split
  · next codes found =>
    obtain ⟨before, after, whole, -⟩ := List.lookup_eq_some_iff.1 found
    have := texts (c.toNat, codes) (by simp [whole])
    simpa using this
  · split <;> exact List.cons_ne_nil _ _

/-- A character that becomes one that is not blank is not blank. -/
theorem isBlank_of_toLower (plain : isBlank c.toLower = false) : isBlank c = false := by
  refine Bool.eq_false_iff.2 fun blank => ?_
  have capital : ¬c.isUpper := fun up => by
    have := code_of_isUpper up
    simp only [isBlank, Bool.or_eq_true, Bool.and_eq_true, decide_eq_true_eq, beq_iff_eq] at blank
    omega
  rw [toLower_of_not_isUpper capital] at plain
  exact Bool.eq_false_iff.1 plain blank

/-- A character outside ASCII becomes no other letter of ASCII than a `k` or an `i`. -/
theorem code_of_mem_toLower (other : 128 ≤ c.toNat) {d : Char} (h : d ∈ toLower c) :
    128 ≤ d.toNat ∨ d.toNat = 0 ∨ d = 'k' ∨ d = 'i' := by
  have texts : ∀ t ∈ toLowerTexts, ∀ d ∈ t.2.map Char.ofNat, 128 ≤ d.toNat ∨ d = 'i' := by
    simp [toLowerTexts]
  have runs : toLowerRuns.all fun r =>
      r.2.1 < 128 || 128 ≤ r.1 + r.2.2.2 || r.1 == 0x212A && r.2.1 == 0x212A && r.2.2.2 == -8383 :=
    by decide +kernel
  rw [toLower, mapCase] at h
  split at h
  · next codes found =>
    obtain ⟨before, after, whole, -⟩ := List.lookup_eq_some_iff.1 found
    exact (texts (c.toNat, codes) (by simp [whole]) d h).imp_right (.inr ∘ .inr)
  · split at h
    · next first last step distance found =>
      have inside := List.find?_some found
      have far := List.all_eq_true.1 runs _ (List.mem_of_find?_eq_some found)
      simp only [Bool.and_eq_true, Bool.or_eq_true, decide_eq_true_eq, beq_iff_eq] at inside far
      obtain rfl := List.mem_singleton.1 h
      obtain (ascii | beyond) | ⟨⟨rfl, rfl⟩, rfl⟩ := far
      · omega
      · obtain same | zero := toNat_ofNat (c.toNat + distance).toNat
        · omega
        · exact .inr (.inl zero)
      · obtain here : c.toNat = 0x212A := by omega
        rw [here]
        exact .inr (.inr (.inl rfl))
    · obtain rfl := List.mem_singleton.1 h
      exact .inl other

def flagLetters : List Char :=
  ['t', 'r', 'u', 'e', 'y', 's', 'o', 'n', 'f', 'a', 'l', '0', '1']

theorem code_of_flagLetter : ∀ c ∈ flagLetters,
    0 < c.toNat ∧ c.toNat < 128 ∧ c ≠ 'k' ∧ c ≠ 'i' ∧ isBlank c = false := by
  simp [flagLetters, isBlank]

/-- Which texts become a word of those letters. -/
theorem flatMap_toLower_eq_iff {word : List Char} (letters : ∀ d ∈ word, d ∈ flagLetters) :
    cs.flatMap toLower = word ↔ cs.map Char.toLower = word := by
  by_cases ascii : ∀ c ∈ cs, c.toNat < 128
  · have same : cs.flatMap toLower = cs.map Char.toLower := by
      rw [List.map_eq_flatMap, List.flatMap_def, List.flatMap_def]
      exact congrArg _ (List.map_congr_left fun c hc => toLower_ascii (ascii c hc))
    rw [same]
  · obtain ⟨c, hc, other⟩ : ∃ c ∈ cs, 128 ≤ c.toNat := by simpa using ascii
    refine iff_of_false ?_ ?_
    · rintro rfl
      obtain ⟨d, hd⟩ := List.exists_mem_of_ne_nil _ (toLower_ne_nil c)
      obtain ⟨positive, small, notK, notI, -⟩ :=
        code_of_flagLetter d (letters d (List.mem_flatMap.2 ⟨c, hc, hd⟩))
      obtain large | zero | rfl | rfl := code_of_mem_toLower other hd
      · omega
      · omega
      · exact notK rfl
      · exact notI rfl
    · rintro rfl
      obtain ⟨-, small, -⟩ := code_of_flagLetter _ (letters _ (List.mem_map_of_mem hc))
      have capital : ¬c.isUpper := fun up => by
        have := code_of_isUpper up
        omega
      rw [toLower_of_not_isUpper capital] at small
      omega

end Text

namespace Config

def flagWords : Bool → List String
  | true => ["1", "true", "yes", "on"]
  | false => ["0", "false", "no", "off"]

/-- A text that is a word for `b`, its letters in any case and blanks around it. -/
def Spells (text : String) (b : Bool) : Prop :=
  ∃ before word after : List Char, text.toList = before ++ word ++ after ∧
    (∀ c ∈ before, Text.isBlank c) ∧ (∀ c ∈ after, Text.isBlank c) ∧
    ∃ w ∈ flagWords b, word.map Char.toLower = w.toList

variable {text : String} {b : Bool}

theorem flag?_eq_some_iff_mem :
    flag? text = some b ↔ Text.lowerText (Text.trim text) ∈ flagWords b := by
  rw [flag?]
  generalize Text.lowerText (Text.trim text) = word
  have apart : word ∈ flagWords true → word ∉ flagWords false := by
    have all : ∀ w ∈ flagWords true, w ∉ flagWords false := by decide
    exact all word
  cases b <;> simp only [flagWords] at apart ⊢ <;> grind

/-- A flag is what its text spells. -/
theorem flag?_eq_some_iff : flag? text = some b ↔ Spells text b := by
  have words : ∀ b, ∀ w ∈ flagWords b, w.toList ≠ [] ∧
      ∀ c ∈ w.toList, c ∈ Text.flagLetters := by simp [flagWords, Text.flagLetters]
  have trimmed : ∀ word : List Char, ∀ w ∈ flagWords b, word.map Char.toLower = w.toList →
      (Text.trimChars text.toList = word ↔ ∃ before after, text.toList = before ++ word ++ after ∧
        (∀ c ∈ before, Text.isBlank c) ∧ ∀ c ∈ after, Text.isBlank c) := by
    intro word w hw becomes
    obtain ⟨filled, letters⟩ := words b w hw
    have plain : ∀ c ∈ word, Text.isBlank c = false := fun c hc =>
      Text.isBlank_of_toLower
        (Text.code_of_flagLetter _ (letters _ (becomes ▸ List.mem_map_of_mem hc))).2.2.2.2
    have some_ : word ≠ [] := by
      rintro rfl
      exact filled becomes.symm
    exact Text.trimChars_eq_iff
      ⟨_, List.head?_eq_some_head some_, plain _ (List.head_mem some_)⟩
      ⟨_, List.getLast?_eq_some_getLast some_, plain _ (List.getLast_mem some_)⟩
  have lowered : ∀ w ∈ flagWords b, Text.lowerText (Text.trim text) = w ↔
      (Text.trimChars text.toList).map Char.toLower = w.toList := by
    intro w hw
    rw [← String.toList_inj, Text.lowerText, Text.trim, String.toList_ofList, String.toList_ofList,
      Text.flatMap_toLower_eq_iff (words b w hw).2]
  rw [flag?_eq_some_iff_mem]
  constructor
  · intro member
    have becomes := (lowered _ member).1 rfl
    obtain ⟨before, after, whole, blank, blank'⟩ := (trimmed _ _ member becomes).1 rfl
    exact ⟨before, _, after, whole, blank, blank', _, member, becomes⟩
  · rintro ⟨before, word, after, whole, blank, blank', w, hw, becomes⟩
    obtain rfl := (trimmed word w hw becomes).2 ⟨before, after, whole, blank, blank'⟩
    rwa [(lowered w hw).2 becomes]

example : flag? "\t Yes\n" = some true := by decide +kernel

theorem flag?_eq_none_iff : flag? text = none ↔ ∀ b, ¬Spells text b := by
  simp only [← flag?_eq_some_iff]
  exact Option.eq_none_iff_forall_ne_some

end Config

end Wiring
