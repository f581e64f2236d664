import Mathlib.Data.List.Chain
import Wiring.Proofs.Accessor.Layout
import Wiring.Proofs.Generation.Locality

/-!
Where plain accessors await. What would have to be awaited is an error in every form but one: the
accessor of a class with a plain policy awaits exactly if its constructor is an awaited function,
and that although the producer is plain.
-/
namespace Wiring.Text.Marked

/-- A place of the text where `word` stands, not all of which was given. -/
def Brings (t : Marked) (word : String) : Prop :=
  ∃ w : Marked, w <:+: t ∧ chars w = word.toList ∧ ∃ g ∈ w, g.origin = .fixed

def awaitLetters : List Char := ['a', 'w', 'i', 't']

def Apart (g h : Glyph) : Prop :=
  (g.char = '.' → h.char = 'a' → g.origin = .given ∧ h.origin = .given) ∧
    (g.origin = .given → h.char ∈ awaitLetters → h.origin = .given)

instance (g h : Glyph) : Decidable (Apart g h) := inferInstanceAs (Decidable (_ ∧ _))

/-- Letters after a given character were given too. -/
theorem given_of_isChain {g : Glyph} {w : Marked} (links : List.IsChain Apart (g :: w))
    (given : g.origin = .given) (letters : ∀ c ∈ chars w, c ∈ awaitLetters) :
    ∀ h ∈ w, h.origin = .given := by
  induction w generalizing g with
  | nil => simp
  | cons h w ih =>
      rw [List.isChain_cons_cons] at links
      obtain ⟨letter, letters⟩ := List.forall_mem_cons.mp letters
      have next := links.1.2 given letter
      exact List.forall_mem_cons.mpr ⟨next, ih links.2 next letters⟩

theorem not_brings_of_isChain {t : Marked} (links : t.IsChain Apart) :
    ¬ Brings t ".await" := by
  rintro ⟨w, inside, spelled, made⟩
  have dotted : ".await".toList = ['.', 'a', 'w', 'a', 'i', 't'] := by decide
  have links : w.IsChain Apart := links.infix inside
  obtain ⟨g, w, rfl, dot, spelled⟩ := List.map_eq_cons_iff.mp (spelled.trans dotted)
  obtain ⟨h, w, rfl, letter, rest⟩ := List.map_eq_cons_iff.mp spelled
  rw [List.isChain_cons_cons] at links
  obtain ⟨gGiven, hGiven⟩ := links.1.1 dot letter
  have letters : ∀ c ∈ chars w, c ∈ awaitLetters := by
    rw [chars, rest]
    simp [awaitLetters]
  have others := given_of_isChain links.2 hGiven letters
  obtain ⟨x, hx, fixed⟩ := made
  have given : x.origin = .given := by
    obtain rfl | rfl | hx := by simpa using hx
    · exact gGiven
    · exact hGiven
    · exact others x hx
  simp [given] at fixed

/-- A text that brings no `.await`, neither alone nor beside other such texts. -/
structure Still (t : Marked) : Prop where
  links : t.IsChain Apart
  first : ∀ g ∈ t.head?, g.origin = .fixed → g.char ∉ awaitLetters
  last : ∀ g ∈ t.getLast?, g.origin = .fixed → g.char ≠ '.'

instance (t : Marked) : Decidable (Still t) :=
  decidable_of_iff (t.IsChain Apart ∧ (∀ g ∈ t.head?, g.origin = .fixed → g.char ∉ awaitLetters) ∧
    ∀ g ∈ t.getLast?, g.origin = .fixed → g.char ≠ '.')
    ⟨fun h => ⟨h.1, h.2.1, h.2.2⟩, fun h => ⟨h.links, h.first, h.last⟩⟩

variable {s t : Marked}

theorem still_nil : Still [] := by decide

theorem origin_of_mem_given {g : Glyph} {text : String} (h : g ∈ given text) :
    g.origin = .given := by
  obtain ⟨c, -, rfl⟩ := List.mem_map.mp h
  rfl

theorem still_given (text : String) : Still (given text) where
  links := (List.pairwise_of_forall_mem_list fun _ hg _ hh =>
    ⟨fun _ _ => ⟨origin_of_mem_given hg, origin_of_mem_given hh⟩,
      fun _ _ => origin_of_mem_given hh⟩).isChain
  first g hg fixed := by simp [origin_of_mem_given (List.mem_of_mem_head? hg)] at fixed
  last g hg fixed := by simp [origin_of_mem_given (List.mem_of_mem_getLast? hg)] at fixed

theorem Still.append (hs : Still s) (ht : Still t) : Still (s ++ t) where
  links := by
    refine List.isChain_append.mpr ⟨hs.links, ht.links, fun g hg h hh => ?_⟩
    have dotGiven : g.char = '.' → g.origin = .given := fun dot => by
      cases fixed : g.origin with
      | given => rfl
      | fixed => exact absurd dot (hs.last g hg fixed)
    have letterGiven : h.char ∈ awaitLetters → h.origin = .given := fun letter => by
      cases fixed : h.origin with
      | given => rfl
      | fixed => exact absurd letter (ht.first h hh fixed)
    exact ⟨fun dot letter => ⟨dotGiven dot, letterGiven (letter ▸ by decide)⟩,
      fun _ => letterGiven⟩
  first g hg := by
    cases s with
    | nil => exact ht.first g hg
    | cons a s => exact hs.first g hg
  last g hg := by
    rw [List.getLast?_append] at hg
    cases ends : t.getLast? with
    | none => exact hs.last g (by simpa [ends] using hg)
    | some h => exact ht.last g (by simpa [ends] using hg)

theorem Still.flatMap {α : Type} {l : List α} {f : α → Marked} (h : ∀ a ∈ l, Still (f a)) :
    Still (l.flatMap f) := by
  induction l with
  | nil => exact still_nil
  | cons a l ih =>
      obtain ⟨ha, h⟩ := List.forall_mem_cons.mp h
      exact ha.append (ih h)

def Blank (g : Glyph) : Prop := g.origin = .fixed ∧ g.char ≠ '.' ∧ g.char ∉ awaitLetters

instance (g : Glyph) : Decidable (Blank g) := inferInstanceAs (Decidable (_ ∧ _))

theorem Blank.apart_after {g : Glyph} (hg : Blank g) (h : Glyph) : Apart g h :=
  ⟨fun dot => absurd dot hg.2.1, fun given => by simp [hg.1] at given⟩

theorem Blank.apart_before {h : Glyph} (hh : Blank h) (g : Glyph) : Apart g h :=
  ⟨fun _ letter => absurd (letter ▸ by decide) hh.2.2, fun _ letter => absurd letter hh.2.2⟩

theorem isChain_of_blank (blank : ∀ g ∈ t, Blank g) : t.IsChain Apart :=
  (List.pairwise_of_forall_mem_list fun g hg h _ => (blank g hg).apart_after h).isChain

variable {feed : Marked}

/-- The first character of a text that is laid out is its own or that of a line feed. -/
theorem mem_head?_relined (some_ : feed ≠ []) {g : Glyph}
    (hg : g ∈ (relined Glyph.char feed t).head?) : g ∈ t.head? ∨ g ∈ feed.head? := by
  have feeds (u : Marked) : (feed ++ u).head? = feed.head? := List.head?_append_of_ne_nil _ some_
  cases t with
  | nil => simp [relined] at hg
  | cons a t =>
      rw [relined, laid] at hg
      split at hg
      · exact .inr (feeds _ ▸ hg)
      · split at hg
        · next dropped =>
          obtain ⟨b, hb, lineFeed⟩ := Option.map_eq_some_iff.mp dropped.2
          obtain ⟨u, rfl⟩ := List.head?_eq_some_iff.mp hb
          rw [relined_cons_feed lineFeed] at hg
          exact .inr (feeds _ ▸ hg)
        · exact .inl hg

/-- Laying out brings no `.await` where line feeds become blank. -/
theorem isChain_relined (some_ : feed ≠ []) (blank : ∀ g ∈ feed, Blank g)
    (links : t.IsChain Apart) : (relined Glyph.char feed t).IsChain Apart := by
  induction t with
  | nil => exact List.isChain_nil
  | cons a t ih =>
      obtain ⟨next, links⟩ := List.isChain_cons.mp links
      have after : ∀ h ∈ (relined Glyph.char feed t).head?, Apart a h := fun h hh =>
        (mem_head?_relined some_ hh).elim (next h)
          fun inFeed => (blank h (List.mem_of_mem_head? inFeed)).apart_before a
      rw [relined, laid]
      split
      · exact List.isChain_append.mpr ⟨isChain_of_blank blank, ih links, fun g hg h _ =>
          (blank g (List.mem_of_mem_getLast? hg)).apart_after h⟩
      · split
        · exact ih links
        · exact List.isChain_cons.mpr ⟨after, ih links⟩

theorem blank_feed (levels : Nat) : ∀ g ∈ fixed "\n" ++ margin levels, Blank g :=
  forall_mem_feed (by decide) (by decide) levels

theorem isChain_reflowed (levels : Nat) (links : t.IsChain Apart) :
    (reflowed levels t : Marked).IsChain Apart :=
  isChain_relined (by simp [fixed]) (blank_feed levels) links

end Wiring.Text.Marked

namespace Wiring

namespace Text

def isShown (c : Char) : Bool := 0x20 ≤ c.toNat && c.toNat ≤ 0x7E && c != '"' && c != '\\'

theorem not_inRuns {runs : List (Nat × Nat)} (apart : ∀ r ∈ runs, r.2 < 0x20 ∨ 0x7E < r.1)
    {c : Char} (shown : isShown c) :
    (runs.any fun (first, last) => first ≤ c.toNat && c.toNat ≤ last) = false := by
  simp only [isShown, Bool.and_eq_true, decide_eq_true_eq] at shown
  rw [List.any_eq_false]
  intro r hr
  have := apart r hr
  simp only [Bool.and_eq_true, decide_eq_true_eq, not_and]
  omega

theorem quoteChar_of_shown {c : Char} (shown : isShown c) : quoteChar c = [c] := by
  have extender : isExtender c = false := not_inRuns (by decide +kernel) shown
  have hidden : isHidden c = false := not_inRuns (by decide +kernel) shown
  unfold quoteChar
  split <;> simp_all [isShown]

theorem quote_of_shown {text : String} (shown : text.toList.all isShown) :
    quote text = "\"" ++ text ++ "\"" := by
  have same : text.toList.flatMap quoteChar = text.toList := by
    rw [List.flatMap_congr fun c hc => quoteChar_of_shown (List.all_eq_true.mp shown c hc)]
    exact List.flatMap_singleton' _
  rw [← String.toList_inj]
  simp [quote, same]

end Text

namespace Accessor

open Text (Marked)
open Text.Marked (fixed given indent fixed_append Still Apart still_given Brings)

def plainTexts : List String :=
  ["placeholder", "https://example.com", ".*"] ++ nameHints.map Prod.snd

def literals : List String :=
  plainTexts.map (fun text => "String::from(" ++ ("\"" ++ text ++ "\"") ++ ")") ++
    ["0", "0.0", "false", "Vec::new()", "::std::collections::HashMap::new()",
      "::std::collections::HashSet::new()", "::std::time::Duration::ZERO",
      "::std::time::SystemTime::UNIX_EPOCH",
      "Box::new(()) as Box<dyn ::std::any::Any + Send + Sync>", "()", "None", "Default::default()"]

theorem stringLiteral_mem_literals {text : String} (h : text ∈ plainTexts) :
    stringLiteral text ∈ literals := by
  have shown : ∀ text ∈ plainTexts, text.toList.all Text.isShown := by decide
  rw [stringLiteral, Text.quote_of_shown (shown text h)]
  exact List.mem_append_left _ (List.mem_map_of_mem h)

theorem mem_plainTexts_of_placeholder? {name text : String} (h : placeholder? name = some text) :
    text ∈ plainTexts := by
  obtain ⟨hint, found, rfl⟩ := Option.map_eq_some_iff.mp h
  exact List.mem_append_right _ (List.mem_map_of_mem (List.mem_of_find?_eq_some found))

theorem literal_mem_literals (type : TypeRef) : type.literal ∈ literals := by
  cases type
  case text => exact stringLiteral_mem_literals (List.mem_append_left _ (by decide))
  case uri => exact stringLiteral_mem_literals (List.mem_append_left _ (by decide))
  case pattern => exact stringLiteral_mem_literals (List.mem_append_left _ (by decide))
  all_goals
    refine List.mem_append_right _ ?_
    dsimp only [TypeRef.literal]
    decide

theorem synthesized_mem_literals (x : Parameter) (heuristics : Bool) :
    x.synthesized heuristics ∈ literals := by
  unfold Parameter.synthesized
  split
  · next text h =>
    split at h
    · exact stringLiteral_mem_literals (mem_plainTexts_of_placeholder? h)
    · cases h
  · exact literal_mem_literals x.type

theorem still_synthesized (x : Parameter) (heuristics : Bool) :
    Still (fixed (x.synthesized heuristics)) := by
  have all : ∀ text ∈ literals, Still (fixed text) := by decide +kernel
  exact all _ (synthesized_mem_literals x heuristics)

theorem still_lookupText {d : Dependency} (plain : d.policy.isAsync = false) :
    Still (lookupText d) := by
  have call : Still (fixed "registry.resolve::<" ++ given d.typeName ++ fixed ">()?") :=
    Still.append (by decide) (still_given _) |>.append (by decide)
  rw [lookupText, plain]
  split
  · exact Still.append (by decide) call |>.append (by decide)
  · exact call

theorem still_text? {style : Style} {managed : ManagedTypes} {heuristics : Bool} {x : Parameter}
    (plain : ∀ d, x.dependency? managed = some d → d.policy.isAsync = false) {t : Marked}
    (h : (source style managed heuristics x).text? = some t) : Still t := by
  unfold source at h
  split at h
  · next d hd =>
    cases h
    exact still_lookupText (plain d hd)
  · cases h
    exact still_given _
  · split at h
    · cases h
    · cases h
      exact still_synthesized x heuristics

namespace Subject

variable {s : Subject}

theorem still_inCrate {item : String} (h : Still (fixed ("::" ++ item))) : Still (s.inCrate item) :=
  .append (still_given _) h

theorem still_policyPath : Still s.policyPath := by
  apply still_inCrate
  cases s.policy <;> decide

theorem still_heading : Still s.heading := by
  refine Still.append (by decide) (still_given _) |>.append ?_
  cases s.policy <;> decide

theorem still_binder : Still s.binder := by
  unfold binder
  split <;> decide

theorem still_signature {type : Marked} (h : Still type) : Still (s.signature type) :=
  have registry : Still (s.inCrate "Registry") := still_inCrate (by decide)
  have result : Still (s.inCrate "DiResult") := still_inCrate (by decide)
  Still.append (by decide) registry |>.append (by decide) |>.append result
    |>.append (by decide) |>.append h |>.append (by decide)

theorem still_policyConstant : Still s.policyConstant :=
  have policy : Still (s.inCrate "RegistrationPolicy") := still_inCrate (by decide)
  Still.append (by decide) policy |>.append (by decide) |>.append still_policyPath
    |>.append (by decide)

def ArgumentsStill (s : Subject) : Prop :=
  ∀ a ∈ s.arguments, ∀ t, a.source.text? = some t → Still t

theorem still_functionCall (name : String) (arguments : s.ArgumentsStill) :
    Still (s.functionCall name) := by
  have head : Still (given s.className ++ fixed "::" ++ given name) :=
    (still_given _).append (by decide) |>.append (still_given _)
  have passed : ∀ t ∈ s.arguments.filterMap (fun a => a.source.text?),
      Still (fixed "    " ++ t ++ fixed ",\n") := fun t ht => by
    obtain ⟨a, ha, hs⟩ := List.mem_filterMap.mp ht
    exact Still.append (by decide) (arguments a ha t hs) |>.append (by decide)
  unfold functionCall
  split
  · exact head.append (by decide)
  · exact head.append (by decide) |>.append (.flatMap passed) |>.append (by decide)

theorem still_literalCall (arguments : s.ArgumentsStill) : Still s.literalCall := by
  have field : ∀ a ∈ s.arguments, Still (literalField a) := fun a ha => by
    unfold literalField
    split
    · next t ht =>
      exact Still.append (by decide) (still_given _) |>.append (by decide)
        |>.append (arguments a ha t ht) |>.append (by decide)
    · exact Text.Marked.still_nil
  have rest : Still (if s.arguments.any fun a => a.source.text?.isNone then
      fixed "    ..Default::default()\n" else []) := by
    split <;> decide
  exact (still_given _).append (by decide) |>.append (.flatMap field) |>.append rest
    |>.append (by decide)

theorem still_body (plain : s.policy.isAsync = false) (called : s.constructor.isAsync = false)
    (arguments : s.ArgumentsStill) : Still s.body := by
  have call : Still s.call := by
    unfold Subject.call
    split
    · exact still_functionCall _ arguments
    · exact still_literalCall arguments
  have opening : Still s.opening := by
    rw [Subject.opening, if_neg (Bool.eq_false_iff.mp plain)]
    split <;> decide
  have awaiting : s.awaiting = [] := by simp [Subject.awaiting, called]
  have closing : Still s.closing := by
    unfold Subject.closing
    split
    · exact Still.append (by decide) (still_inCrate (by decide))
    · exact Text.Marked.still_nil
  rw [body_eq, awaiting, List.append_nil]
  exact opening.append call |>.append closing |>.append (by decide)

/-- A producer without an `.await` is laid out without one. -/
theorem still_indent_body (h : Still s.body) : Still (indent 2 s.body) where
  links := by
    rw [indent_body]
    have blank := Text.Marked.blank_feed 2
    have margin : (Text.Marked.margin 2).IsChain Apart :=
      Text.Marked.isChain_of_blank fun g hg => blank g (List.mem_append_right _ hg)
    refine List.isChain_append.mpr ⟨List.isChain_append.mpr ⟨margin, ?_, fun g hg h _ => ?_⟩, ?_,
      fun g _ h hh => ?_⟩
    · exact Text.Marked.isChain_reflowed 2 h.links
    · exact (blank g (List.mem_append_right _ (List.mem_of_mem_getLast? hg))).apart_after h
    · decide
    · exact (blank h (List.mem_append_left _ (List.mem_of_mem_head? hh))).apart_before g
  first := by
    have starts : (indent 2 s.body).head? = some ⟨' ', .fixed⟩ := by
      rw [indent_body, Text.Marked.margin_eq, List.append_assoc, List.replicate_succ]
      rfl
    simp [starts, Text.Marked.awaitLetters]
  last := by
    have ends : (indent 2 s.body).getLast? = some ⟨'\n', .fixed⟩ := by
      rw [indent_body]
      exact List.getLast?_concat
    simp [ends]

/-- The function of a plain accessor, without the line feed at its end. -/
theorem still_syncFunction (h : Still s.body) :
    ∃ t, s.syncFunction = t ++ fixed "\n" ∧ Still t := by
  have ending : fixed "    \x7d)\n\x7d\n\n" = fixed "    \x7d)\n\x7d\n" ++ fixed "\n" :=
    fixed_append "    \x7d)\n\x7d\n" "\n"
  have registry : Still (s.inCrate "Registry") := still_inCrate (by decide)
  refine ⟨_, by rw [syncFunction, ending, ← List.append_assoc], ?_⟩
  exact Still.append (by decide) (still_given _) |>.append (still_signature (still_given _))
    |>.append (by decide) |>.append still_policyPath |>.append (by decide)
    |>.append still_binder |>.append (by decide) |>.append registry
    |>.append (by decide) |>.append (still_indent_body h) |>.append (by decide)

theorem still_syncImplementation : Still (fixed "\n" ++ s.syncImplementation) := by
  have beginning : fixed "\n" ++ fixed "impl " = fixed "\nimpl " := (fixed_append "\n" "impl ").symm
  have autowired : Still (s.inCrate "Autowired") := still_inCrate (by decide)
  simp only [syncImplementation, ← List.append_assoc, beginning]
  exact Still.append (by decide) autowired |>.append (by decide)
    |>.append (still_given _) |>.append (by decide) |>.append still_policyConstant
    |>.append (by decide) |>.append (still_signature (by decide))
    |>.append (by decide) |>.append (still_given _) |>.append (by decide)

/-- The text of a plain accessor brings no `.await` if its producer does not. -/
theorem still_text (plain : s.policy.isAsync = false) (h : Still s.body) : Still s.text := by
  obtain ⟨t, ends, still⟩ := still_syncFunction h
  rw [text, if_neg (Bool.eq_false_iff.mp plain), ends, List.append_assoc, ← List.append_assoc]
  exact (still_heading.append still).append still_syncImplementation

theorem brings_of_async (called : s.constructor.isAsync) : Brings s.text ".await" := by
  have awaiting : s.awaiting = fixed ".await" := by simp [Subject.awaiting, called]
  have inBody : fixed ".await" <:+: s.body := by
    rw [body_eq, awaiting, List.append_assoc _ s.closing]
    exact ⟨_, _, rfl⟩
  have laidOut : Text.Marked.reflowed s.policy.producerLevels (fixed ".await") = fixed ".await" :=
    Text.relined_of_line (by decide)
  have inText := s.reflowed_infix_text inBody (by decide) (by decide) (by decide)
  exact ⟨_, laidOut ▸ inText, by decide, ⟨'.', .fixed⟩, by decide, rfl⟩

end Subject

end Accessor

/-- A constructor that no plain code can run: an awaited literal, or one with a lookup that is
awaited. -/
def Constructor.Unreachable (k : Constructor) (managed : ManagedTypes) : Prop :=
  (k.style = .literal ∧ k.isAsync) ∨
    ∃ x ∈ k.params, ∃ d, x.dependency? managed = some d ∧ d.policy.isAsync

namespace AnnotatedClass

open Text.Marked (Brings)

variable {c : AnnotatedClass} {managed : ManagedTypes} {config : Config} {k : Constructor}

theorem unusable?_of_callable (h : c.callable managed = .ok k) : k.unusable? = none := by
  unfold callable at h
  split at h
  · cases h
  · split at h
    · cases h
    · next usable =>
      split at h
      · exact Except.ok.inj h ▸ usable
      · split at h
        · cases h
        · exact Except.ok.inj h ▸ usable

theorem not_unreachable_of_callable (plain : c.policy.isAsync = false)
    (h : c.callable managed = .ok k) : ¬ k.Unreachable managed := by
  rintro (⟨literal, called⟩ | ⟨x, hx, d, hd, awaited⟩)
  · have usable := unusable?_of_callable h
    simp [Constructor.unusable?, literal, called] at usable
  · have := policy_of_awaitedParameter? (plain_of_callable h plain) hx hd
    simp [awaited] at this

theorem brings_await_iff (plain : c.policy.isAsync = false) (h : c.callable managed = .ok k) :
    Brings (c.subject k managed config).text ".await" ↔ k.isAsync := by
  have arguments : (c.subject k managed config).ArgumentsStill := by
    intro a ha t ht
    obtain ⟨x, hx, rfl⟩ := List.mem_map.mp ha
    exact Accessor.still_text? (fun d hd =>
      policy_of_awaitedParameter? (plain_of_callable h plain) hx hd) ht
  constructor
  · intro brings
    by_contra called
    have body := Accessor.Subject.still_body (s := c.subject k managed config) plain
      (Bool.eq_false_iff.mpr called) arguments
    exact Text.Marked.not_brings_of_isChain (Accessor.Subject.still_text plain body).links brings
  · exact fun called => Accessor.Subject.brings_of_async called

/-- Of the constructs that a plain accessor would have to await, all are errors except the call of
an awaited function: the accessor is made and awaits exactly there. -/
theorem plain_accessor_awaits_iff (c : AnnotatedClass) (managed : ManagedTypes) (config : Config)
    (plain : c.policy.isAsync = false) :
    (∀ k, c.constructor = some k → k.Unreachable managed →
      ∃ fault, c.accessor managed config = .error ⟨c.name, c.location, fault⟩) ∧
    ∀ a, c.accessor managed config = .ok a → ∃ k, c.constructor = some k ∧
      a.code = (c.subject k managed config).text.toString ∧
      (Brings (c.subject k managed config).text ".await" ↔ k.isAsync) := by
  constructor
  · intro k hk unreachable
    unfold accessor
    cases callable : c.callable managed with
    | error fault => exact ⟨fault, rfl⟩
    | ok k' =>
        cases hk.symm.trans (constructor_of_callable callable)
        exact absurd unreachable (not_unreachable_of_callable plain callable)
  · intro a ha
    obtain ⟨k, callable, rfl⟩ := accessor_eq_ok_iff.mp ha
    exact ⟨k, constructor_of_callable callable, rfl, brings_await_iff plain callable⟩

def opened : AnnotatedClass :=
  ⟨"Store", ⟨"src/store.rs", 1, 1⟩, .silent, some ⟨.function "open", true, false, []⟩⟩

theorem plain_store_awaits : opened.policy.isAsync = false ∧
    ∀ a, opened.accessor .empty .standard = .ok a → ∃ k, opened.constructor = some k ∧
      a.code = (opened.subject k .empty .standard).text.toString ∧
      (Brings (opened.subject k .empty .standard).text ".await" ↔ k.isAsync) :=
  ⟨rfl, (plain_accessor_awaits_iff opened .empty .standard rfl).2⟩

/-- The accessor of the class is made, and its form brings an `.await`. -/
theorem plain_store_brings_await : opened.policy.isAsync = false ∧
    ∃ a k, opened.accessor .empty .standard = .ok a ∧ opened.constructor = some k ∧
      a.code = (opened.subject k .empty .standard).text.toString ∧
      Brings (opened.subject k .empty .standard).text ".await" :=
  ⟨rfl, _, _, rfl, rfl, rfl, Accessor.Subject.brings_of_async rfl⟩

end AnnotatedClass

end Wiring
