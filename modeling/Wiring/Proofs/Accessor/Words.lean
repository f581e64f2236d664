import Mathlib.Data.List.Nodup
import Mathlib.Data.Set.Function
import Wiring.Proofs.Accessor.Faults
import Wiring.Proofs.Accessor.Names
import Wiring.Proofs.Generation.Account
import Wiring.Proofs.Text.LowerCase

/-!
Functions of conventionally named classes. A conventional name is put together from words, each of
them a capital letter and then lower-case letters or digits. Its snake case is those words in lower
case with an underscore between any two, so that the words can be read back from the function, and
two classes of different conventional names never want the same one.
-/
namespace Wiring.Accessor

def isSmall (c : Char) : Bool := Text.isLower c || c.isDigit

@[ext] structure Word where
  capital : Char
  rest : List Char
  isUpper_capital : capital.isUpper
  small : ∀ c ∈ rest, isSmall c
  rest_ne_nil : rest ≠ []

namespace Word

def text (w : Word) : String := String.ofList (w.capital :: w.rest)

def lowered (w : Word) : String := Text.lowerText w.text

end Word

def joined (words : List Word) : String := String.join (words.map Word.text)

def underscored (words : List Word) : String := "_".intercalate (words.map Word.lowered)

def Conventional (name : String) : Prop := ∃ words, words ≠ [] ∧ name = joined words

variable {b c : Char} {w : Word} {words : List Word}

theorem nameChar_of_isDigit (digit : c.isDigit) : nameChar c := by
  simp [nameChar, Char.isAlphanum, digit]

theorem nameChar_capital (w : Word) : nameChar w.capital :=
  nameChar_of_isUpper w.isUpper_capital

theorem not_isUpper_of_isDigit (digit : c.isDigit) : c.isUpper = false :=
  forall_nameChar (fun c => c.isDigit → c.isUpper = false) (by decide) (nameChar_of_isDigit digit)
    digit

theorem isUpper_of_small (small : isSmall c) : Text.isUpper c = false := by
  obtain low | digit := Bool.or_eq_true_iff.mp small
  · exact Text.isUpper_of_isLower low
  · rw [isUpper_nameChar (nameChar_of_isDigit digit), not_isUpper_of_isDigit digit]

theorem toLower_of_small (small : isSmall c) : Text.toLower c = [c] := by
  obtain low | digit := Bool.or_eq_true_iff.mp small
  · exact Text.toLower_of_isLower low
  · rw [toLower_nameChar (nameChar_of_isDigit digit),
      toLower_of_not_isUpper (nameChar_of_isDigit digit)
        (Bool.eq_false_iff.mp (not_isUpper_of_isDigit digit))]

theorem startsWord_of_small (small : isSmall b) (after : Option Char) : startsWord b after := by
  rw [startsWord, show (Text.isLower b || b.isDigit) = true from small, Bool.true_or]

/-- Within a word no other begins, and after its last character the next word does. -/
theorem snakeFrom_small (before : Option Char) (cs : List Char) {small : List Char}
    (all : ∀ c ∈ small, isSmall c) (some_ : small ≠ []) :
    ∃ b, isSmall b ∧ snakeFrom before (small ++ cs) = small ++ snakeFrom (some b) cs := by
  induction small generalizing before with
  | nil => exact absurd rfl some_
  | cons c rest ih =>
      obtain ⟨first, others⟩ := List.forall_mem_cons.mp all
      have step : snakeFrom before (c :: rest ++ cs) = c :: snakeFrom (some c) (rest ++ cs) := by
        simp [snakeFrom, isUpper_of_small first, toLower_of_small first]
      cases rest with
      | nil => exact ⟨c, first, step⟩
      | cons d rest =>
          obtain ⟨b, small, tail⟩ := ih (some c) others (List.cons_ne_nil _ _)
          exact ⟨b, small, step.trans (congrArg (c :: ·) tail)⟩

namespace Word

def low (w : Word) : List Char := w.capital.toLower :: w.rest

theorem toList_text (w : Word) : w.text.toList = w.capital :: w.rest := String.toList_ofList

theorem toList_lowered (w : Word) : w.lowered.toList = w.low := by
  have rest : w.rest.flatMap Text.toLower = w.rest := by
    rw [List.flatMap_congr fun c hc => toLower_of_small (w.small c hc)]
    exact List.flatMap_singleton' _
  rw [lowered, Text.lowerText, String.toList_ofList, toList_text, List.flatMap_cons, rest,
    toLower_nameChar (nameChar_capital w)]
  rfl

theorem small_low (w : Word) : ∀ c ∈ w.low, isSmall c := by
  have lower : w.capital.toLower.isLower :=
    forall_nameChar (fun c => c.isUpper → c.toLower.isLower) (by decide) (nameChar_capital w)
      w.isUpper_capital
  have capital : isSmall w.capital.toLower := by
    rw [isSmall, isLower_nameChar (nameChar_toLower (nameChar_capital w)), lower, Bool.true_or]
  exact List.forall_mem_cons.mpr ⟨capital, w.small⟩

theorem low_injective : Function.Injective low := by
  intro v w same
  obtain ⟨first, rest⟩ := List.cons.inj same
  have capital : v.capital = w.capital := by
    rw [← toUpper_toLower v.isUpper_capital, first, toUpper_toLower w.isUpper_capital]
  exact Word.ext capital rest

end Word

/-- A word is taken as it is, and gets an underscore in front unless it is the first. -/
theorem snakeFrom_word (w : Word) (cs : List Char) : ∃ b, isSmall b ∧
    snakeFrom none (w.text.toList ++ cs) = w.low ++ snakeFrom (some b) cs ∧
    ∀ d, isSmall d →
      snakeFrom (some d) (w.text.toList ++ cs) = '_' :: (w.low ++ snakeFrom (some b) cs) := by
  obtain ⟨b, small, tail⟩ :=
    snakeFrom_small (some w.capital) cs w.small w.rest_ne_nil
  refine ⟨b, small, ?_, fun d hd => ?_⟩
  · rw [w.toList_text, List.cons_append, snakeFrom_none_cons (nameChar_capital w), tail]
    rfl
  · rw [w.toList_text, List.cons_append, snakeFrom_cons (nameChar_capital w), Option.any_some,
      startsWord_of_small hd, w.isUpper_capital, tail]
    rfl

theorem snakeFrom_words (small : isSmall b) :
    snakeFrom (some b) (words.flatMap fun w => w.text.toList) =
      words.flatMap fun w => '_' :: w.low := by
  induction words generalizing b with
  | nil => rfl
  | cons w words ih =>
      obtain ⟨d, hd, -, next⟩ := snakeFrom_word w (words.flatMap fun w => w.text.toList)
      rw [List.flatMap_cons, next b small, ih hd, List.flatMap_cons, List.cons_append]

theorem intercalate_low (w : Word) (words : List Word) :
    ['_'].intercalate ((w :: words).map Word.low) =
      w.low ++ words.flatMap fun w => '_' :: w.low := by
  induction words generalizing w with
  | nil => simp
  | cons v words ih =>
      rw [List.map_cons, List.map_cons, List.intercalate_cons_cons, ← List.map_cons, ih]
      simp

theorem toList_underscored (words : List Word) :
    (underscored words).toList = ['_'].intercalate (words.map Word.low) := by
  rw [underscored, String.toList_intercalate, List.map_map]
  exact congrArg _ (List.map_congr_left fun w _ => w.toList_lowered)

theorem snakeCase_joined (words : List Word) : snakeCase (joined words) = underscored words := by
  have parts : (joined words).toList = words.flatMap fun w => w.text.toList := by
    rw [joined, String.toList_join, List.flatMap_map]
  rw [← String.toList_inj, snakeCase, String.toList_ofList, parts, toList_underscored]
  cases words with
  | nil => rfl
  | cons w words =>
      obtain ⟨b, small, first, -⟩ := snakeFrom_word w (words.flatMap fun w => w.text.toList)
      rw [List.flatMap_cons, first, snakeFrom_words small, intercalate_low]

theorem not_mem_low (other : isSmall c = false) (w : Word) : c ∉ w.low :=
  fun inside => Bool.eq_false_iff.mp other (w.small_low c inside)

theorem splitOn_underscored (some_ : words ≠ []) :
    (underscored words).toList.splitOn '_' = words.map Word.low := by
  rw [toList_underscored]
  exact List.splitOn_intercalate '_'
    (List.forall_mem_map.mpr fun w _ => not_mem_low (by decide +kernel) w) (by simpa using some_)

theorem underscored_injOn : Set.InjOn underscored {words | words ≠ []} := by
  intro words hw others ho same
  have split := congrArg (fun s => s.toList.splitOn '_') same
  simp only [splitOn_underscored hw, splitOn_underscored ho] at split
  exact Word.low_injective.list_map split

def escapedWords : List String := keywords ++ reservedPaths

theorem escapeKeyword_of_not_mem {word : String} (h : word ∉ escapedWords) :
    escapeKeyword word = word := by
  obtain ⟨keyword, path⟩ := not_or.mp (mt List.mem_append.mpr h)
  rw [escapeKeyword, if_neg keyword, if_neg path]

/-- Words other than the escaped forms are told apart by their own escaped forms. -/
theorem escapeKeyword_injOn :
    Set.InjOn escapeKeyword {word | word ∉ escapedWords.map escapeKeyword} := by
  have apart : (escapedWords.map escapeKeyword).Nodup := by decide +kernel
  intro v hv w hw same
  by_cases v_ : v ∈ escapedWords <;> by_cases w_ : w ∈ escapedWords
  · exact List.inj_on_of_nodup_map apart v_ w_ same
  · rw [escapeKeyword_of_not_mem w_] at same
    exact absurd (same ▸ List.mem_map_of_mem v_) hw
  · rw [escapeKeyword_of_not_mem v_] at same
    exact absurd (same ▸ List.mem_map_of_mem w_) hv
  · rwa [escapeKeyword_of_not_mem v_, escapeKeyword_of_not_mem w_] at same

/-- Between underscores an escaped form has a piece that is no word: one with a hash, or none. -/
theorem underscored_not_mem (some_ : words ≠ []) :
    underscored words ∉ escapedWords.map escapeKeyword := by
  have forms : ∀ form ∈ escapedWords.map escapeKeyword,
      ∃ piece ∈ form.toList.splitOn '_', piece = [] ∨ '#' ∈ piece := by decide +kernel
  intro form
  obtain ⟨piece, inForm, odd⟩ := forms _ form
  rw [splitOn_underscored some_] at inForm
  obtain ⟨w, -, rfl⟩ := List.mem_map.mp inForm
  obtain none_ | hash := odd
  · cases none_
  · exact not_mem_low (by decide +kernel) w hash

/-- Conventional names are told apart by the functions of their classes. -/
theorem functionName_injOn : Set.InjOn functionName {name | Conventional name} := by
  rintro _ ⟨words, hw, rfl⟩ _ ⟨others, ho, rfl⟩ same
  simp only [functionName, snakeCase_joined] at same
  have words_ := escapeKeyword_injOn (underscored_not_mem hw) (underscored_not_mem ho) same
  rw [underscored_injOn hw ho words_]

end Wiring.Accessor

namespace Wiring.BuildPass

variable {p : BuildPass} {config : Config} {e : GenerationError}

theorem function_of_accessor {c : AnnotatedClass} {managed : ManagedTypes} {a : GeneratedAccessor}
    (made : c.accessor managed config = .ok a) : a.function = Accessor.functionName c.name := by
  obtain ⟨k, -, rfl⟩ := AnnotatedClass.accessor_eq_ok_iff.mp made
  rfl

/-- Where a function is reported as taken, the class in error asks for it, and so does a class of
the same file that is called as the report says. -/
theorem functionName_of_taken (he : e ∈ (p.generate config).errors) {function existing : String}
    (fault : e.fault = .duplicateAccessor function existing) :
    Accessor.functionName e.className = function ∧ Accessor.functionName existing = function := by
  obtain ⟨⟨c, r⟩, ho, reported⟩ := List.mem_filterMap.mp he
  cases r with
  | ok a => cases reported
  | error e' =>
      cases reported
      obtain ⟨before, after, split⟩ := List.append_of_mem ho
      cases (accounts_outcomes p config).each before c _ after split with
      | unbuilt failed =>
          obtain ⟨_, faulty, rfl⟩ := AnnotatedClass.accessor_eq_error_iff.mp failed
          cases fault
          cases faulty
      | taken built first file same =>
          cases fault
          have there : (_, .ok _) ∈ p.outcomes config := split ▸ List.mem_append_left _ first
          exact ⟨(function_of_accessor built).symm,
            (function_of_accessor (accessor_of_mem there)).symm.trans same⟩

end Wiring.BuildPass

namespace Wiring.Accessor

/-- The function of a conventional name is made of its words in lower case, an underscore between
any two, and is escaped where that is a keyword. No two such names have one function, so a function
is never reported as taken between two of them. -/
theorem conventional_names_apart :
    (∀ words, functionName (joined words) =
      if underscored words ∈ keywords then "r#" ++ underscored words
      else if underscored words ∈ reservedPaths then underscored words ++ "_"
      else underscored words) ∧
    Set.InjOn functionName {name | Conventional name} ∧
    ∀ (p : BuildPass) (config : Config), ∀ e ∈ (p.generate config).errors, ∀ function existing,
      e.fault = .duplicateAccessor function existing →
        Conventional e.className → Conventional existing → e.className = existing := by
  refine ⟨fun words => ?_, functionName_injOn, ?_⟩
  · rw [functionName, snakeCase_joined]
    rfl
  · intro p config e he function existing fault named named'
    obtain ⟨own, other⟩ := BuildPass.functionName_of_taken he fault
    exact functionName_injOn named named' (own.trans other.symm)

def gateway : List Word :=
  [⟨'A', ['p', 'i'], by decide, List.all_eq_true.mp (by decide +kernel), by decide⟩,
    ⟨'V', ['2'], by decide, List.all_eq_true.mp (by decide +kernel), by decide⟩,
    ⟨'G', ['a', 't', 'e', 'w', 'a', 'y'], by decide, List.all_eq_true.mp (by decide +kernel),
      by decide⟩]

theorem function_of_gateway : gateway ≠ [] ∧ joined gateway = "ApiV2Gateway" ∧
    functionName (joined gateway) = "api_v2_gateway" :=
  ⟨by decide, by decide, (conventional_names_apart.1 gateway).trans (by decide +kernel)⟩

end Wiring.Accessor
