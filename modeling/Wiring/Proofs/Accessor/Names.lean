import Wiring.Accessor.Name

/-!
Which accessor functions have legal names. A name is legal as the edition of 2021 has it: no word
with a meaning of its own, or such a word in its escaped form. The snake case of a class name is a
name again, and keywords in use are escaped. Words that are only held in reserve are not, so that
the name is legal unless the class is called like one of those.
-/
namespace Wiring.Accessor

def strictWords : List String :=
  ["as", "async", "await", "break", "const", "continue", "crate", "dyn", "else", "enum", "extern",
    "false", "fn", "for", "if", "impl", "in", "let", "loop", "match", "mod", "move", "mut", "pub",
    "ref", "return", "self", "Self", "static", "struct", "super", "trait", "true", "type", "unsafe",
    "use", "where", "while"]

def reservedWords : List String :=
  ["abstract", "become", "box", "do", "final", "macro", "override", "priv", "try", "typeof",
    "unsized", "virtual", "yield"]

/-- Keywords that stand for a place in a path, and that no escape makes a name of. -/
def pathWords : List String := ["crate", "self", "Self", "super"]

def nameChar (c : Char) : Bool := c.isAlphanum || c == '_'

/-- A letter or an underscore, then letters, digits and underscores, but not one underscore only. -/
def isName (word : List Char) : Bool :=
  match word with
  | [] => false
  | c :: rest => (c.isAlpha || c == '_') && rest.all nameChar && word != ['_']

/-- What may stand for the name of a function. -/
inductive Legal : String → Prop
  | plain {word : String} :
      isName word.toList → word ∉ strictWords → word ∉ reservedWords → Legal word
  | escaped {word : String} :
      word ∈ strictWords ∨ word ∈ reservedWords → word ∉ pathWords → Legal ("r#" ++ word)

variable {b c : Char} {before : Option Char} {cs w : List Char}

theorem nameChar_of_isName (h : isName cs) : ∀ c ∈ cs, nameChar c := by
  cases cs with
  | nil => simp
  | cons c rest =>
      simp only [isName, Bool.and_eq_true, List.all_eq_true] at h
      obtain ⟨⟨first, others⟩, -⟩ := h
      refine List.forall_mem_cons.mpr ⟨?_, others⟩
      simp only [nameChar, Char.isAlphanum, Bool.or_eq_true] at first ⊢
      exact first.imp_left .inl

/-- Checks a property of characters for all that a name has. -/
theorem forall_nameChar (P : Char → Prop)
    (h : ∀ n < 128, nameChar (Char.ofNat n) → P (Char.ofNat n)) (hc : nameChar c) : P c := by
  have bound : c.toNat < 128 := by
    simp only [nameChar, Bool.or_eq_true, beq_iff_eq] at hc
    obtain hc | rfl := hc
    · change ((decide (c.val ≥ 65 ∧ c.val ≤ 90) || (decide (c.val ≥ 97) && decide (c.val ≤ 122))) ||
        (decide (c.val ≥ 48) && decide (c.val ≤ 57))) = true at hc
      simp only [Bool.or_eq_true, Bool.and_eq_true, decide_eq_true_eq, UInt32.le_iff_toNat_le,
        ge_iff_le] at hc
      change ((65 ≤ c.toNat ∧ c.toNat ≤ 90) ∨ 97 ≤ c.toNat ∧ c.toNat ≤ 122) ∨
        48 ≤ c.toNat ∧ c.toNat ≤ 57 at hc
      omega
    · decide
  simpa only [Char.ofNat_toNat] using h c.toNat bound (by simpa only [Char.ofNat_toNat] using hc)

theorem isUpper_nameChar (hc : nameChar c) : Text.isUpper c = c.isUpper :=
  forall_nameChar (fun c => Text.isUpper c = c.isUpper) (by decide +kernel) hc

theorem isLower_nameChar (hc : nameChar c) : Text.isLower c = c.isLower :=
  forall_nameChar (fun c => Text.isLower c = c.isLower) (by decide +kernel) hc

theorem toLower_nameChar (hc : nameChar c) : Text.toLower c = [c.toLower] :=
  forall_nameChar (fun c => Text.toLower c = [c.toLower]) (by decide) hc

theorem snakeFrom_cons (hc : nameChar c) :
    snakeFrom before (c :: cs) =
      (if c.isUpper && before.any fun b => startsWord b cs.head? then ['_'] else [])
        ++ c.toLower :: snakeFrom (some c) cs := by
  simp [snakeFrom, isUpper_nameChar hc, toLower_nameChar hc]

/-- Snake case begins with what the first character becomes. -/
theorem snakeFrom_none_cons (hc : nameChar c) :
    snakeFrom none (c :: cs) = c.toLower :: snakeFrom (some c) cs := by
  simp [snakeFrom_cons hc]

theorem toLower_of_not_isUpper (hc : nameChar c) (up : ¬c.isUpper) : c.toLower = c :=
  forall_nameChar (fun c => ¬c.isUpper → c.toLower = c) (by decide) hc up

theorem not_isLower_of_isUpper (hc : nameChar c) (up : c.isUpper) : ¬c.isLower :=
  forall_nameChar (fun c => c.isUpper → ¬c.isLower) (by decide) hc up

theorem nameChar_of_isAlpha (letter : c.isAlpha) : nameChar c := by
  simp [nameChar, Char.isAlphanum, letter]

theorem nameChar_of_isUpper (up : c.isUpper) : nameChar c :=
  nameChar_of_isAlpha (Bool.or_eq_true_iff.2 (.inl up))

theorem nameChar_of_isLower (low : c.isLower) : nameChar c :=
  nameChar_of_isAlpha (Bool.or_eq_true_iff.2 (.inr low))

theorem isUpper_toUpper (low : c.isLower) : c.toUpper.isUpper :=
  forall_nameChar (fun c => c.isLower → c.toUpper.isUpper) (by decide) (nameChar_of_isLower low) low

theorem nameChar_toLower (hc : nameChar c) : nameChar c.toLower :=
  forall_nameChar (fun c => nameChar c.toLower) (by decide) hc

/-- The snake case of a name has no upper-case character. -/
theorem snakeFrom_plain (h : ∀ c ∈ cs, nameChar c) :
    ∀ d ∈ snakeFrom before cs, nameChar d ∧ d.isUpper = false := by
  induction cs generalizing before with
  | nil => simp [snakeFrom]
  | cons c cs ih =>
      intro d hd
      have hc := h c (by simp)
      rw [snakeFrom_cons hc, List.mem_append, List.mem_cons] at hd
      obtain gap | rfl | tail := hd
      · have : d = '_' := by
          split at gap
          · simpa using gap
          · simp at gap
        subst d
        decide
      · exact ⟨nameChar_toLower hc,
          forall_nameChar (fun c => c.toLower.isUpper = false) (by decide) hc⟩
      · exact ih (fun c hc => h c (by simp [hc])) d tail

theorem isName_snakeFrom (h : isName cs) : isName (snakeFrom none cs) := by
  match cs, h with
  | c :: rest, h =>
      obtain ⟨hc, others⟩ := List.forall_mem_cons.mp (nameChar_of_isName h)
      simp only [isName, Bool.and_eq_true, List.all_eq_true, bne_iff_ne] at h
      obtain ⟨⟨first, -⟩, alone⟩ := h
      have lowDash : c.toLower = '_' → c = '_' :=
        forall_nameChar (fun c => c.toLower = '_' → c = '_') (by decide) hc
      rw [snakeFrom_none_cons hc]
      simp only [isName, Bool.and_eq_true, List.all_eq_true, bne_iff_ne]
      refine ⟨⟨?_, fun d hd => (snakeFrom_plain others d hd).1⟩, fun dash => ?_⟩
      · obtain letter | rfl : c.isAlpha ∨ c = '_' := by simpa using first
        · have same : c.toLower.isAlpha = c.isAlpha :=
            forall_nameChar (fun c => c.toLower.isAlpha = c.isAlpha) (by decide) hc
          simp [same, letter]
        · decide
      · rw [List.cons.injEq] at dash
        cases rest with
        | nil => exact alone (by rw [lowDash dash.1])
        | cons d rest => simp [snakeFrom_cons (others d (by simp))] at dash

def spellings : List Char → List (List Char)
  | [] => [[]]
  | c :: rest => [c :: rest, c.toUpper :: rest, c.toUpper :: rest.map Char.toUpper]

theorem toUpper_toLower (up : c.isUpper) : c.toLower.toUpper = c :=
  forall_nameChar (fun c => c.isUpper → c.toLower.toUpper = c) (by decide)
    (nameChar_of_isUpper up) up

theorem toLower_eq_iff {d : Char} (up : c.isUpper) (low : d.isLower) :
    c.toLower = d ↔ c = d.toUpper := by
  constructor
  · rintro rfl
    exact (toUpper_toLower up).symm
  · rintro rfl
    exact forall_nameChar (fun d => d.isLower → d.toUpper.toLower = d) (by decide)
      (nameChar_of_isLower low) low

/-- After a lower-case character a capital letter would begin a word. -/
theorem snakeFrom_of_lower (hb : nameChar b) (low : b.isLower) (names : ∀ c ∈ cs, nameChar c)
    (letters : ∀ d ∈ w, d.isLower) : snakeFrom (some b) cs = w ↔ cs = w := by
  induction cs generalizing b w with
  | nil => simp [snakeFrom]
  | cons c cs ih =>
      have hc := names c (by simp)
      have others : ∀ c ∈ cs, nameChar c := fun c h => names c (by simp [h])
      rw [snakeFrom_cons hc]
      by_cases up : c.isUpper
      · have gap : startsWord b cs.head? := by simp [startsWord, isLower_nameChar hb, low]
        simp only [up, Option.any_some, gap, Bool.and_self, if_true]
        constructor
        · rintro rfl
          simpa using letters '_' (by simp)
        · rintro rfl
          exact absurd (letters c (by simp)) (not_isLower_of_isUpper hc up)
      · simp only [up, Bool.false_and, Bool.false_eq_true, if_false, List.nil_append,
          toLower_of_not_isUpper hc up]
        cases w with
        | nil => simp
        | cons d w =>
            rw [List.cons.injEq, List.cons.injEq]
            refine and_congr_right ?_
            rintro rfl
            exact ih hc (letters c (by simp)) others fun d h => letters d (by simp [h])

theorem cons_snakeFrom (hc : nameChar c) (names : ∀ c ∈ cs, nameChar c)
    (letters : ∀ d ∈ w, d.isLower) : c :: snakeFrom (some c) cs = w ↔ c :: cs = w := by
  cases w with
  | nil => simp
  | cons d w =>
      rw [List.cons.injEq, List.cons.injEq]
      refine and_congr_right ?_
      rintro rfl
      obtain ⟨low, rest⟩ := List.forall_mem_cons.mp letters
      exact snakeFrom_of_lower hc low names rest

theorem startsWord_of_upper (hb : nameChar b) (up : b.isUpper) (names : ∀ c ∈ cs, nameChar c) :
    startsWord b cs.head? = cs.head?.any Char.isLower := by
  have digit : b.isUpper → b.isDigit = false :=
    forall_nameChar (fun b => b.isUpper → b.isDigit = false) (by decide) hb
  have lower : cs.head?.any Text.isLower = cs.head?.any Char.isLower := by
    cases cs with
    | nil => rfl
    | cons c cs => simp [isLower_nameChar (names c (by simp))]
  simp [startsWord, isLower_nameChar hb, isUpper_nameChar hb, up, digit up, lower,
    not_isLower_of_isUpper hb up]

/-- After a capital letter a further one begins a word if a lower-case character follows. -/
theorem snakeFrom_of_upper (hb : nameChar b) (up : b.isUpper) (names : ∀ c ∈ cs, nameChar c)
    (letters : ∀ d ∈ w, d.isLower) :
    snakeFrom (some b) cs = w ↔ cs = w ∨ cs = w.map Char.toUpper := by
  induction cs generalizing b w with
  | nil => simp [snakeFrom, eq_comm]
  | cons c cs ih =>
      have hc := names c (by simp)
      have others : ∀ c ∈ cs, nameChar c := fun c h => names c (by simp [h])
      rw [snakeFrom_cons hc, Option.any_some, startsWord_of_upper hb up others]
      cases w with
      | nil => simp
      | cons d w =>
          obtain ⟨low, rest⟩ := List.forall_mem_cons.mp letters
          by_cases upper : c.isUpper
          · have apart : c ≠ d := fun h => not_isLower_of_isUpper hc upper (h ▸ low)
            by_cases next : cs.head?.any Char.isLower
            · simp only [upper, next, Bool.and_self, if_true, List.map_cons, List.cons.injEq,
                apart, false_and, false_or, List.cons_append]
              constructor
              · rintro ⟨rfl, -⟩
                simp at low
              · rintro ⟨-, rfl⟩
                cases w with
                | nil => simp at next
                | cons e w =>
                    have upper := isUpper_toUpper (rest e List.mem_cons_self)
                    exact absurd next (not_isLower_of_isUpper (others _ List.mem_cons_self) upper)
            · have both : cs = w → cs = w.map Char.toUpper := by
                rintro rfl
                cases cs with
                | nil => rfl
                | cons e cs => simp [letters e (by simp)] at next
              simp only [upper, next, Bool.and_false, Bool.false_eq_true, if_false, List.nil_append,
                List.cons.injEq, List.map_cons, toLower_eq_iff upper low, apart, false_and,
                false_or, ih hc upper others rest, or_iff_right_of_imp both]
          · have apart : c ≠ d.toUpper := by
              rintro rfl
              exact upper (isUpper_toUpper low)
            simp only [upper, apart, Bool.false_and, Bool.false_eq_true, if_false,
              List.nil_append, List.map_cons, List.cons.injEq, false_and, or_false,
              toLower_of_not_isUpper hc upper, cons_snakeFrom hc others letters]

/-- A word of lower-case letters is the snake case of its spellings and of no other name. -/
theorem snakeFrom_eq_iff (names : ∀ c ∈ cs, nameChar c) (letters : ∀ d ∈ w, d.isLower) :
    snakeFrom none cs = w ↔ cs ∈ spellings w := by
  cases cs with
  | nil => cases w <;> simp [snakeFrom, spellings]
  | cons c cs =>
      obtain ⟨hc, others⟩ := List.forall_mem_cons.mp names
      rw [snakeFrom_none_cons hc]
      cases w with
      | nil => simp [spellings]
      | cons d w =>
          obtain ⟨low, rest⟩ := List.forall_mem_cons.mp letters
          simp only [spellings, List.mem_cons, List.not_mem_nil, or_false]
          by_cases up : c.isUpper
          · have apart : c ≠ d := fun h => not_isLower_of_isUpper hc up (h ▸ low)
            simp only [List.cons.injEq, toLower_eq_iff up low, snakeFrom_of_upper hc up others rest,
              apart, false_and, false_or, and_or_left]
          · have apart : c ≠ d.toUpper := by
              rintro rfl
              exact up (isUpper_toUpper low)
            rw [toLower_of_not_isUpper hc up, cons_snakeFrom hc others letters]
            simp only [List.cons.injEq, apart, false_and, or_false]

theorem not_legal_of_reserved {word : String} (h : word ∈ reservedWords) : ¬ Legal word := by
  have bare : ∀ word ∈ reservedWords, word.toList[1]? ≠ some '#' := by decide
  intro legal
  cases legal with
  | plain _ _ free => exact free h
  | escaped => exact bare _ h (by simp [String.toList_append])

/-- A name of lower-case characters comes out legal unless it is a word held in reserve. -/
theorem legal_escapeKeyword_iff {word : String} (name : isName word.toList)
    (plain : ∀ c ∈ word.toList, c.isUpper = false) :
    Legal (escapeKeyword word) ↔ word ∉ reservedWords := by
  have inUse : ∀ word ∈ keywords,
      word ∈ strictWords ∧ word ∉ pathWords ∧ word ∉ reservedWords := by decide
  have inPaths : ∀ word ∈ reservedPaths,
      isName (word ++ "_").toList ∧ word ++ "_" ∉ strictWords ∧ word ++ "_" ∉ reservedWords ∧
        word ∉ reservedWords := by decide
  have covered : ∀ word ∈ strictWords,
      word ∈ keywords ∨ word ∈ reservedPaths ∨ word.toList.any Char.isUpper := by decide
  unfold escapeKeyword
  split
  next keyword =>
    obtain ⟨strict, path, free⟩ := inUse word keyword
    exact iff_of_true (.escaped (.inl strict) path) free
  next keyword =>
    split
    next path =>
      obtain ⟨name, strict, reserved, free⟩ := inPaths word path
      exact iff_of_true (.plain name strict reserved) free
    next path =>
      have strict : word ∉ strictWords := by
        intro strict
        obtain used | used | up := covered word strict
        · exact keyword used
        · exact path used
        · obtain ⟨c, hc, up⟩ := List.any_eq_true.mp up
          simp [plain c hc] at up
      exact ⟨fun legal reserved => not_legal_of_reserved reserved legal,
        fun reserved => .plain name strict reserved⟩

/-- The function of a class has a legal name unless the class is called like a word in reserve. -/
theorem legal_functionName_iff (name : String) (h : isName name.toList) :
    Legal (functionName name) ↔ ∀ word ∈ reservedWords, name.toList ∉ spellings word.toList := by
  have chars := nameChar_of_isName h
  have letters : ∀ word ∈ reservedWords, word.toList.all Char.isLower := by decide
  have snake : (snakeCase name).toList = snakeFrom none name.toList := String.toList_ofList
  rw [functionName, legal_escapeKeyword_iff (snake ▸ isName_snakeFrom h)
    (snake ▸ fun c hc => (snakeFrom_plain chars c hc).2)]
  constructor
  · intro free word reserved spelled
    have : snakeCase name = word := by
      rw [← String.toList_inj, snake]
      exact (snakeFrom_eq_iff chars (List.all_eq_true.mp (letters word reserved))).mpr spelled
    exact free (this ▸ reserved)
  · intro free reserved
    exact free _ reserved
      ((snakeFrom_eq_iff chars (List.all_eq_true.mp (letters _ reserved))).mp snake.symm)

theorem legal_function_of_service :
    isName "UserService".toList ∧ Legal (functionName "UserService") :=
  have name : isName "UserService".toList := by decide
  ⟨name, (legal_functionName_iff "UserService" name).mpr (by decide)⟩

/-- A class called `Try` is a class with a name, and its function has none. -/
theorem not_legal_function_of_try : isName "Try".toList ∧ ¬ Legal (functionName "Try") := by
  have same : functionName "Try" = "try" := by decide
  exact ⟨by decide, same ▸ not_legal_of_reserved (by decide)⟩

end Wiring.Accessor
