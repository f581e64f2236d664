import Wiring.Proofs.Wired.Answers
import Mathlib.Data.List.Forall2

/-!
Sessions with the accessors of a pass. A client that works alone with an empty registry gets an
answer to every call of an accessor: an instance where no cycle can be reached, and otherwise the
chain of classes that was being resolved when it closed.
-/
namespace Wiring

open Registry

variable {setting : Setting} {keyOf : String → Key} {modeOf : String → Mode}
  {accessors : List GeneratedAccessor} {me : ClientId}

/-- Producers of accessors come back with an answer. Scripts that nest too deep for `runScript` are
out of reach, since the trail refuses the calls that would need them. -/
theorem runScript_answers (wired : Wired setting keyOf modeOf accessors) (me : ClientId)
    (level : Nat) :
    Runner.Answers (wiredTerms setting.observers me keyOf modeOf accessors) keyOf modeOf accessors
      (runScript setting level) (maxDepth + 1 - level) := by
  induction level with
  | zero =>
      intro runtime run chain calls a ha along fresh nested callable deep
      have := nested.length_le
      omega
  | succ level ih =>
      intro runtime run chain calls a ha along fresh nested callable deep
      have deeper : Runner.Answers (wiredTerms setting.observers me keyOf modeOf accessors) keyOf
          modeOf accessors (runScript setting level) (calls.length + 1) :=
        fun runtime run chain calls' a ha along fresh nested callable deep =>
          ih runtime run chain calls' a ha along fresh nested callable (by omega)
      have resolve : ∀ b, Needs accessors a b → _ := fun b needs =>
        abides_resolve wired deeper along needs.2.1
          (fun x hx => by
            rw [List.getLast?_concat, Option.some.injEq] at hx
            exact hx ▸ needs)
          nested callable runtime
      apply Program.abides_bind
      apply (abides_aside (.note _) trivial callable).mono
      intro _ _ he
      subst he
      exact abides_lookups wired ha fresh callable (fun b needs => (resolve b needs).1)
        (fun b needs => (resolve b needs).2) rfl [] a.dependencies rfl
        (fun x _ hx => by cases hx) []

theorem abides_demand (wired : Wired setting keyOf modeOf accessors) {a : GeneratedAccessor}
    (ha : a ∈ accessors) (context : Context) :
    ((a.demand keyOf context).program setting).Abides
      (wiredTerms setting.observers me keyOf modeOf accessors) []
      ((a.demand keyOf context).program setting)
      fun calls reply => calls = [] ∧ a.Replies keyOf accessors [] reply := by
  have call := abides_resolve wired (runScript_answers wired me maxDepth) .nil ha
    (fun x hx => by cases hx) trivial trivial context.runtime
  unfold GeneratedAccessor.demand
  cases hm : a.policy.mode with
  | sync => exact call.1 hm
  | async => exact call.2 hm

theorem abides_demands (wired : Wired setting keyOf modeOf accessors)
    (calls : List (GeneratedAccessor × Context)) (there : ∀ call ∈ calls, call.1 ∈ accessors) :
    (work setting (calls.map fun call => call.1.demand keyOf call.2)).Abides
      (wiredTerms setting.observers me keyOf modeOf accessors) []
      (work setting (calls.map fun call => call.1.demand keyOf call.2))
      fun under replies => under = [] ∧
        List.Forall₂ (fun call reply => call.1.Replies keyOf accessors [] reply) calls replies := by
  unfold work
  induction calls with
  | nil => exact Program.abides_pure ⟨rfl, .nil⟩
  | cons call calls ih =>
      simp only [List.map_cons, List.mapM_cons]
      apply Program.abides_bind
      apply (abides_demand wired (there call (by simp)) call.2).mono
      intro _ reply given
      obtain ⟨rfl, answer⟩ := given
      apply Program.abides_bind
      apply (ih fun call hc => there call (by simp [hc])).mono
      intro _ replies given
      obtain ⟨rfl, answers⟩ := given
      exact Program.abides_pure ⟨rfl, .cons answer answers⟩

/-- What a call of `a` comes back with that is made from outside: an instance if no cycle can be
reached from `a`, and otherwise the one path that closes, along which each class needs the next. -/
structure GeneratedAccessor.Answered (keyOf : String → Key) (accessors : List GeneratedAccessor)
    (a : GeneratedAccessor) (r : Resolved) : Prop where
  succeeds : (∃ inst, r = .ok inst) ↔ ¬CycleFrom accessors a
  fails : ∀ error, r = .error error → ∃ before last,
    error = .circular ((before ++ [last]).map (GeneratedAccessor.keyName keyOf)) ∧
      (∀ path, Closes accessors [] a path ↔ path = before ++ [last]) ∧
      before.head? = some a ∧ (before ++ [last]).IsChain (Needs accessors) ∧ before.Nodup ∧
      last ∈ before

theorem Wired.answered (wired : Wired setting keyOf modeOf accessors) {a : GeneratedAccessor}
    {r : Resolved} (answer : Answer keyOf accessors [] a r) : a.Answered keyOf accessors r := by
  have names : ∀ x ∈ accessors, ∀ y ∈ accessors, x.className = y.className → x = y :=
    fun x hx y hy he => wired.names x hx y hy (by rw [he])
  cases r with
  | ok inst => exact ⟨⟨fun _ => answer, fun _ => ⟨inst, rfl⟩⟩, fun _ h => by cases h⟩
  | error error =>
      obtain ⟨cycle, path, closes, rfl⟩ := answer
      refine ⟨⟨fun h => ?_, fun h => absurd cycle h⟩, fun error h => ?_⟩
      · obtain ⟨inst, h⟩ := h
        cases h
      · cases h
        obtain ⟨⟨rest, front⟩, links, before, last, rfl, again, nodup⟩ :=
          closes.shape .nil (.singleton a)
        refine ⟨before, last, rfl, fun path => ⟨fun h => h.unique names closes, ?_⟩, ?_, links,
          nodup, again⟩
        · intro he
          subst he
          exact closes
        · cases before with
          | nil => cases again
          | cons x before =>
              cases front
              rfl

/-- Every call of an accessor of a clean pass is answered, whatever was called before. It never
fails for a policy, an entry that is missing, an instance of another class, a wait that is refused
or its depth. -/
theorem session_of_accessors_answered {p : BuildPass} {config : Config}
    (closed : p.external = .empty) (names : (p.classes.map AnnotatedClass.name).Nodup)
    (few : p.classes.length ≤ maxDepth) (clean : (p.generate config).errors = [])
    (apart : ∀ c ∈ p.classes, ∀ d ∈ p.classes,
      (keyOf c.name).name = (keyOf d.name).name → c.name = d.name)
    (observers : Nat) (others : Key → Registry.Accessor) (me : ClientId)
    (calls : List (GeneratedAccessor × Context))
    (there : ∀ call ∈ calls, call.1 ∈ (p.generate config).accessors) :
    ∃ replies w,
      inTurn ((p.generate config).setting keyOf p.modeOf observers others) me
        (calls.map fun call => call.1.demand keyOf call.2) .empty [] = some (replies, w) ∧
      List.Forall₂ (fun call reply => ∃ r, reply = .resolved r ∧
        call.1.Answered keyOf (p.generate config).accessors r) calls replies := by
  have wired : Wired ((p.generate config).setting keyOf p.modeOf observers others) keyOf p.modeOf
      (p.generate config).accessors :=
    wired_of_pass closed names few clean apart observers others
  have at_ : Situated (wiredTerms observers me keyOf p.modeOf (p.generate config).accessors)
      (fun _ _ _ _ => True) me [] ⟨.empty, .empty, []⟩ := by
    refine ⟨rfl, [], ?_, trivial⟩
    have nobody : lone me [] = fun _ => [] := by
      funext c
      by_cases hc : c = me
      · rw [hc, lone_self]
      · rw [lone, Function.update_of_ne hc]
    rw [nobody]
    exact tenure_start _
  obtain ⟨replies, w, _, hp, -, ⟨-, answers⟩, -⟩ :=
    at_.run rfl (fun _ _ => trivial) (abides_demands wired calls there)
  refine ⟨replies, w, hp, answers.imp ?_⟩
  intro call reply given
  obtain ⟨r, rfl, answer⟩ := given
  exact ⟨r, rfl, wired.answered answer⟩

def mailClass (name : String) (line : UInt32) (policy : Policy) (needs : List String) :
    AnnotatedClass where
  name := name
  location := ⟨"src/mail.rs", line, 1⟩
  directive := ⟨some policy, ⟨"src/mail.rs", line, 1⟩⟩
  constructor :=
    some ⟨.function "new", false, false, needs.map fun n => ⟨n, .named n, .positional, true, none⟩⟩

def mailPass : BuildPass where
  classes := [
    mailClass "Logger" 1 .lazySingleton [],
    mailClass "Mailer" 2 .singletonAsync ["Logger", "Queue"],
    mailClass "Queue" 3 .factoryAsync ["Mailer"]]
  external := .empty

def mailKey (name : String) : Key := ⟨"mail::" ++ name, name⟩

def mailSetting : Setting :=
  (mailPass.generate .standard).setting mailKey mailPass.modeOf 1
    fun _ => ⟨.factory, fun _ _ => .finish (.ok ⟨none, []⟩)⟩

def mailCalls : List (GeneratedAccessor × Context) :=
  (mailPass.generate .standard).accessors.map (·, .plain) ++
    (mailPass.generate .standard).accessors.map (·, .task)

theorem mail_accessors_answered :
    mailPass.external = .empty ∧ (mailPass.classes.map AnnotatedClass.name).Nodup ∧
      mailPass.classes.length ≤ maxDepth ∧ (mailPass.generate .standard).errors = [] ∧
      ∃ replies w,
        inTurn mailSetting 0 (mailCalls.map fun call => call.1.demand mailKey call.2) .empty [] =
          some (replies, w) ∧
        List.Forall₂ (fun call reply => ∃ r, reply = .resolved r ∧
          call.1.Answered mailKey (mailPass.generate .standard).accessors r) mailCalls replies := by
  have names : (mailPass.classes.map AnnotatedClass.name).Nodup := by decide
  have few : mailPass.classes.length ≤ maxDepth := by decide
  have clean : (mailPass.generate .standard).errors = [] := by decide +kernel
  refine ⟨rfl, names, few, clean, ?_⟩
  apply session_of_accessors_answered rfl names few clean (fun _ _ _ _ h => h) 1 _ 0 mailCalls
  intro call hc
  cases List.mem_append.1 hc with
  | inl hc =>
      obtain ⟨a, ha, rfl⟩ := List.mem_map.1 hc
      exact ha
  | inr hc =>
      obtain ⟨a, ha, rfl⟩ := List.mem_map.1 hc
      exact ha

end Wiring
