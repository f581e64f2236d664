import Wiring.Proofs.Registry.Alone
import Wiring.Proofs.Wired.Accessors
import Mathlib.Data.List.Perm.Subperm

/-!
What calls of generated accessors come back with. The calls under way follow a chain of
dependencies, plain ones inside awaited ones, so the trail names the chain in order and a call is
refused only where the chain closes. A call from which no cycle can be reached succeeds; every other
call ends in the chain that closes first, whatever has been cached and however often it has been
tried.
-/
namespace Wiring

open Registry

variable {setting : Setting} {keyOf : String → Key} {modeOf : String → Mode}
  {accessors : List GeneratedAccessor}

def GeneratedAccessor.keyName (keyOf : String → Key) (a : GeneratedAccessor) : String :=
  (keyOf a.className).name

/-- The calls under way, innermost first, are those of a chain of accessors, outermost first. -/
inductive Along (keyOf : String → Key) (accessors : List GeneratedAccessor) :
    List Call → List GeneratedAccessor → Prop
  | nil : Along keyOf accessors [] []
  | cons {calls : List Call} {chain : List GeneratedAccessor} {a : GeneratedAccessor} {call : Call}
      (h : Along keyOf accessors calls chain) (ha : a ∈ accessors)
      (link : ∀ x, chain.getLast? = some x → Needs accessors x a)
      (hk : call.key = keyOf a.className) (hm : call.mode = a.policy.mode) :
      Along keyOf accessors (call :: calls) (chain ++ [a])

namespace Along

variable {calls : List Call} {chain : List GeneratedAccessor} {a x : GeneratedAccessor}

theorem mem (h : Along keyOf accessors calls chain) (hx : x ∈ chain) : x ∈ accessors := by
  induction h with
  | nil => cases hx
  | cons _ ha _ _ _ ih =>
      cases List.mem_append.1 hx with
      | inl hx => exact ih hx
      | inr hx =>
          cases List.mem_singleton.1 hx
          exact ha

/-- The last of a chain is needed by all of it. -/
theorem reaches (h : Along keyOf accessors calls chain) (hx : x ∈ chain) {y : GeneratedAccessor}
    (hy : chain.getLast? = some y) : Relation.ReflTransGen (Needs accessors) x y := by
  induction h generalizing y with
  | nil => cases hx
  | @cons calls chain a call _ _ link _ _ ih =>
      simp only [List.getLast?_append, List.getLast?_singleton, Option.some_or,
        Option.some.injEq] at hy
      subst hy
      cases List.mem_append.1 hx with
      | inl hx =>
          cases hl : chain.getLast? with
          | none =>
              rw [List.getLast?_eq_none_iff] at hl
              subst hl
              cases hx
          | some z => exact (ih hx hl).tail (link z hl)
      | inr hx =>
          cases List.mem_singleton.1 hx
          exact .refl

/-- The trail names the chain, and its stack is empty while the innermost call is awaited. -/
theorem names (wired : Wired setting keyOf modeOf accessors)
    (h : Along keyOf accessors calls chain) :
    (trailOf calls).names = chain.map (GeneratedAccessor.keyName keyOf) ∧
      ((∀ x, chain.getLast? = some x → x.policy.mode = .async) → (trailOf calls).stack = []) := by
  induction h with
  | nil => exact ⟨rfl, fun _ => rfl⟩
  | @cons calls chain a call _ _ link hk hm ih =>
      obtain ⟨names, stack⟩ := ih
      rw [List.map_append, ← names]
      cases hmode : a.policy.mode with
      | sync =>
          refine ⟨?_, fun awaited => ?_⟩
          · simp [trailOf, hm, hmode, hk, Trail.enter, Trail.names, GeneratedAccessor.keyName]
          · have := awaited a (by simp)
            simp [hmode] at this
      | async =>
          have empty : (trailOf calls).stack = [] := by
            apply stack
            intro x hx
            cases hxm : x.policy.mode with
            | async => rfl
            | sync => cases hmode.symm.trans (wired.plain x a (link x hx) hxm)
          refine ⟨?_, fun _ => ?_⟩
          · simp [trailOf, hm, hmode, hk, Trail.enter, Trail.names, GeneratedAccessor.keyName,
              empty]
          · simp [trailOf, hm, hmode, Trail.enter, empty]

theorem free (wired : Wired setting keyOf modeOf accessors)
    (h : Along keyOf accessors calls chain)
    (hr : (trailOf calls).refusal? (a.keyName keyOf) = none) : a ∉ chain := by
  intro ha
  have named := (refusal?_eq_none_iff.1 hr).1
  rw [(h.names wired).1] at named
  exact named (List.mem_map_of_mem ha)

theorem nodup (wired : Wired setting keyOf modeOf accessors)
    (h : Along keyOf accessors calls chain) (nested : Nested calls) : chain.Nodup := by
  induction h with
  | nil => exact .nil
  | @cons calls chain a call h _ _ hk _ ih =>
      refine List.nodup_append'.2 ⟨ih nested.2.2, List.nodup_singleton a, ?_⟩
      rw [List.disjoint_singleton]
      exact h.free wired (by rw [GeneratedAccessor.keyName, ← hk]; exact nested.2.1)

/-- A call is refused where the chain closes, and never for its depth. -/
theorem refused (wired : Wired setting keyOf modeOf accessors)
    (h : Along keyOf accessors calls chain) (nested : Nested calls) (ha : a ∈ accessors)
    {error : ResolveError} (hr : (trailOf calls).refusal? (a.keyName keyOf) = some error) :
    a ∈ chain ∧ error = .circular ((chain ++ [a]).map (GeneratedAccessor.keyName keyOf)) := by
  have names := (h.names wired).1
  by_cases named : a.keyName keyOf ∈ (trailOf calls).names
  · rw [Trail.refusal?_of_mem named, names] at hr
    cases hr
    rw [names] at named
    obtain ⟨x, hx, he⟩ := List.mem_map.1 named
    cases wired.names x (h.mem hx) a ha he
    exact ⟨hx, by simp⟩
  · exfalso
    have fresh : a ∉ chain := fun hm => named (names ▸ List.mem_map_of_mem hm)
    have apart : (a :: chain).Nodup := List.nodup_cons.2 ⟨fresh, h.nodup wired nested⟩
    have short : (a :: chain).length ≤ accessors.length := by
      refine (List.subperm_of_subset apart fun x hx => ?_).length_le
      cases List.mem_cons.1 hx with
      | inl eq =>
          subst eq
          exact ha
      | inr hx => exact h.mem hx
    have few := wired.few
    have room : (trailOf calls).names.length < maxDepth := by
      rw [names, List.length_map]
      simp only [List.length_cons] at short
      omega
    rw [refusal?_eq_none_iff.2 ⟨named, room⟩] at hr
    cases hr

end Along

/-- What a call of `a` comes back with while `chain` is being resolved. -/
def Answer (keyOf : String → Key) (accessors chain : List GeneratedAccessor)
    (a : GeneratedAccessor) {α : Type} : Except ResolveError α → Prop
  | .ok _ => ¬CycleFrom accessors a
  | .error error => CycleFrom accessors a ∧ ∃ path, Closes accessors chain a path ∧
      error = .circular (path.map (GeneratedAccessor.keyName keyOf))

/-- A call that was refused further down closes the chain for the call that made it. -/
theorem Answer.on {chain : List GeneratedAccessor} {a b : GeneratedAccessor} {α β : Type}
    {error : ResolveError}
    (answer : Answer keyOf accessors (chain ++ [a]) b (.error error : Except ResolveError α))
    (fresh : a ∉ chain) (stumbles : CycleFrom accessors b → Stumbles accessors a b) :
    Answer keyOf accessors chain a (.error error : Except ResolveError β) := by
  obtain ⟨cycle, path, closes, rfl⟩ := answer
  exact ⟨cycle.needed (stumbles cycle).needs, path, .on fresh (stumbles cycle) closes, rfl⟩

def wiredTerms (observers : Nat) (me : ClientId) (keyOf : String → Key) (modeOf : String → Mode)
    (accessors : List GeneratedAccessor) : Terms where
  observers := observers
  alone := some me
  driven := True
  entry e := ∃ a ∈ accessors, e.key = keyOf a.className ∧ e.policy = a.policy ∧
    (∀ p, e.resolution.maker? = some p →
      p = ⟨a.policy.mode, a.producer keyOf modeOf a.policy.mode⟩) ∧
      ∀ inst, e.resolution.instance? = some inst → ¬CycleFrom accessors a
  inst i := ∃ a ∈ accessors, i.key = keyOf a.className ∧ ¬CycleFrom accessors a
  asks _ _ := True
  gives _ _ := True
  refuses _ := True

def Runner.Answers (terms : Terms) (keyOf : String → Key) (modeOf : String → Mode)
    (accessors : List GeneratedAccessor) (runner : Runner) (depth : Nat) : Prop :=
  ∀ runtime run chain calls, ∀ a ∈ accessors, Along keyOf accessors calls (chain ++ [a]) →
    a ∉ chain → Nested calls → Callable calls → depth ≤ calls.length →
      (runner runtime ((a.producer keyOf modeOf a.policy.mode).script run)).Abides terms calls
        (runner runtime ((a.producer keyOf modeOf a.policy.mode).script run)) fun calls' o =>
          calls' = calls ∧ Answer keyOf accessors chain a o

section Calls

variable {me : ClientId} {runner : Runner} {calls : List Call} {chain : List GeneratedAccessor}
  {a : GeneratedAccessor}

/-- A call of an accessor comes back with an answer if producers do. -/
theorem abides_wired (wired : Wired setting keyOf modeOf accessors)
    (runs : Runner.Answers (wiredTerms setting.observers me keyOf modeOf accessors) keyOf modeOf
      accessors runner (calls.length + 1))
    (along : Along keyOf accessors calls chain) (ha : a ∈ accessors)
    (link : ∀ x, chain.getLast? = some x → Needs accessors x a) (nested : Nested calls)
    (callable : Callable calls) (runtime : Runtime) :
    ((EntryPoint.register a.policy (a.producer keyOf modeOf a.policy.mode)).program setting runner
        runtime (keyOf a.className)).Abides
      (wiredTerms setting.observers me keyOf modeOf accessors) calls
      ((EntryPoint.register a.policy (a.producer keyOf modeOf a.policy.mode)).program setting runner
        runtime (keyOf a.className))
      fun calls' r => calls' = calls ∧ Answer keyOf accessors chain a r := by
  have same {b : GeneratedAccessor} (hb : b ∈ accessors)
      (hk : keyOf a.className = keyOf b.className) : b = a :=
    wired.names b hb a ha (congrArg Key.name hk.symm)
  have producer (hr : (trailOf calls).refusal? (keyOf a.className).name = none) :
      (a.producer keyOf modeOf a.policy.mode).Abides
        (wiredTerms setting.observers me keyOf modeOf accessors) runner runner (keyOf a.className)
        a.policy.mode (some (a.producer keyOf modeOf a.policy.mode).id) calls
        (Answer keyOf accessors chain a) := fun runtime _ run s hs =>
    runs runtime run chain _ a ha (along.cons ha link rfl rfl) (along.free wired hr)
      ⟨callable, hr, nested⟩ hs (by simp)
  refine Program.abides_entryPoint (O := Answer keyOf accessors chain a)
    (Q := Answer keyOf accessors chain a) rfl _ callable (fun _ => trivial) trivial
    (fun _ _ => trivial) ?_ ?_ ?_ ?_ ?_
  · intro error hr _
    obtain ⟨again, rfl⟩ := along.refused wired nested ha hr
    cases hl : chain.getLast? with
    | none =>
        rw [List.getLast?_eq_none_iff] at hl
        subst hl
        cases again
    | some x =>
        exact ⟨.of_needed (along.reaches again hl) (link x hl), _, .again again, rfl⟩
  · exact fun mismatched => absurd rfl mismatched
  · exact fun absent => by cases absent
  · intro hr
    refine ⟨?_, ?_⟩
    · intro e given p hp
      obtain ⟨hk, -, -, b, hb, hkey, -, maker, -⟩ := given
      obtain rfl := same hb (hk.symm.trans hkey)
      rw [maker p hp]
      exact producer hr
    · intro e given
      obtain ⟨hk, -, -, b, hb, hkey, hpol, maker, kept⟩ := given
      obtain rfl := same hb (hk.symm.trans hkey)
      refine ⟨?_, ?_, ?_, ?_, ?_⟩
      · exact fun inst hi => kept inst hi
      · intro inst _ given hi
        obtain ⟨b', hb', hkey', good⟩ := given
        obtain rfl := same hb' (hk.symm.trans (hi.symm.trans hkey'))
        exact good
      · intro p run o r _ ho given
        obtain ⟨serial, rfl⟩ := given
        cases o with
        | ok payload => exact ho
        | error error => exact ho
      · intro p run o inst _ ho given
        obtain ⟨serial, hr⟩ := given
        cases o with
        | ok payload =>
            cases hr
            exact ⟨b, hb, hk, ho⟩
        | error error => cases hr
      · intro plain awaited
        rw [hpol, plain] at awaited
        cases awaited
  · intro hr policy producer' hx
    cases hx
    refine ⟨producer hr, ?_, fun error ho => ho, fun h => by cases h⟩
    intro e given
    obtain ⟨hk, hpol, sound, maker, made⟩ := given
    refine ⟨a, ha, hk, hpol, maker, fun inst hi => ?_⟩
    obtain ⟨run, o, ho, serial, hr⟩ := made inst hi
    cases o with
    | ok payload => exact ho
    | error error => cases hr

def GeneratedAccessor.Replies (keyOf : String → Key) (accessors chain : List GeneratedAccessor)
    (a : GeneratedAccessor) (reply : Reply) : Prop :=
  ∃ r, reply = .resolved r ∧ Answer keyOf accessors chain a r

theorem abides_resolve (wired : Wired setting keyOf modeOf accessors)
    (runs : Runner.Answers (wiredTerms setting.observers me keyOf modeOf accessors) keyOf modeOf
      accessors runner (calls.length + 1))
    (along : Along keyOf accessors calls chain) (ha : a ∈ accessors)
    (link : ∀ x, chain.getLast? = some x → Needs accessors x a) (nested : Nested calls)
    (callable : Callable calls) (runtime : Runtime) :
    (a.policy.mode = .sync →
      ((Request.resolve (keyOf a.className)).program setting runner runtime).Abides
        (wiredTerms setting.observers me keyOf modeOf accessors) calls
        ((Request.resolve (keyOf a.className)).program setting runner runtime)
        fun calls' reply => calls' = calls ∧ a.Replies keyOf accessors chain reply) ∧
      (a.policy.mode = .async →
        ((Request.resolveAsync (keyOf a.className)).program setting runner runtime).Abides
          (wiredTerms setting.observers me keyOf modeOf accessors) calls
          ((Request.resolveAsync (keyOf a.className)).program setting runner runtime)
          fun calls' reply => calls' = calls ∧ a.Replies keyOf accessors chain reply) := by
  have call := abides_wired wired runs along ha link nested callable runtime
  generalize hm : a.policy.mode = mode at call
  refine ⟨fun h => ?_, fun h => ?_⟩
  · subst h
    simp only [Request.program, wired.registered a ha]
    apply Program.abides_bind
    apply call.mono
    intro _ r given
    obtain ⟨rfl, answer⟩ := given
    exact Program.abides_pure ⟨rfl, r, rfl, answer⟩
  · subst h
    simp only [Request.program, wired.registered a ha]
    apply Program.abides_bind
    apply call.mono
    intro _ r given
    obtain ⟨rfl, answer⟩ := given
    exact Program.abides_pure ⟨rfl, r, rfl, answer⟩

/-- What comes of a producer when a lookup has come back: an error is the end of it, and after an
instance the rest decides. -/
theorem abides_noted {terms : Terms} {b : GeneratedAccessor} (fresh : a ∉ chain)
    (callable : Callable calls) (needs : Needs accessors a b)
    {call : Request .sync → Program Reply} {await : Request .async → Program Reply}
    {before rest : List String} (split : a.dependencies = before ++ b.className :: rest)
    (good : ∀ x, Needs accessors a x → x.className ∈ before → ¬CycleFrom accessors x) {m : Mode}
    {verb : String} {reply : Reply} {next : Script m}
    (replies : b.Replies keyOf accessors (chain ++ [a]) reply)
    (failed : ∀ error, reply = .resolved (.error error) → next = .finish (.error error))
    (goes_on : ∀ inst, reply = .resolved (.ok inst) → ¬CycleFrom accessors b →
      (Script.program call await next).Abides terms calls (Script.program call await next)
        fun calls' o => calls' = calls ∧ Answer keyOf accessors chain a o) :
    (Script.program call await (.note (.step verb reply) next)).Abides terms calls
      (Script.program call await (.note (.step verb reply) next))
      fun calls' o => calls' = calls ∧ Answer keyOf accessors chain a o := by
  obtain ⟨r, rfl, answer⟩ := replies
  apply Program.abides_bind
  apply (abides_aside (.note _) trivial callable).mono
  intro _ _ he
  subst he
  cases r with
  | ok inst => exact goes_on inst rfl answer
  | error error =>
      rw [failed error rfl]
      exact Program.abides_pure
        ⟨rfl, answer.on fresh fun cycle => ⟨needs, cycle, before, rest, split, good⟩⟩

/-- A producer goes through the lookups that are left to it. Those before them came back with
instances, so no cycle can be reached from what they looked up. -/
theorem abides_lookups (wired : Wired setting keyOf modeOf accessors)
    {terms : Terms} (ha : a ∈ accessors) (fresh : a ∉ chain) (callable : Callable calls)
    {call : Request .sync → Program Reply} {await : Request .async → Program Reply}
    (resolve : ∀ b, Needs accessors a b → b.policy.mode = .sync →
      (call (.resolve (keyOf b.className))).Abides terms calls (call (.resolve (keyOf b.className)))
        fun calls' reply => calls' = calls ∧ b.Replies keyOf accessors (chain ++ [a]) reply)
    (resolveAsync : ∀ b, Needs accessors a b → b.policy.mode = .async →
      (await (.resolveAsync (keyOf b.className))).Abides terms calls
        (await (.resolveAsync (keyOf b.className)))
        fun calls' reply => calls' = calls ∧ b.Replies keyOf accessors (chain ++ [a]) reply)
    {m : Mode} (hm : m = a.policy.mode) (before rest : List String)
    (split : a.dependencies = before ++ rest)
    (good : ∀ x, Needs accessors a x → x.className ∈ before → ¬CycleFrom accessors x)
    (deps : List Nat) :
    ((followSteps none none
        (rest.map fun d => .mk (GeneratedAccessor.lookup (keyOf d) (modeOf d)) .stop) m
        deps).program call await).Abides terms calls
      ((followSteps none none
        (rest.map fun d => .mk (GeneratedAccessor.lookup (keyOf d) (modeOf d)) .stop) m
        deps).program call await)
      fun calls' o => calls' = calls ∧ Answer keyOf accessors chain a o := by
  induction rest generalizing before deps with
  | nil =>
      refine Program.abides_pure ⟨rfl, fun cycle => ?_⟩
      obtain ⟨b, needs, again⟩ := cycle.needs
      rw [List.append_nil] at split
      exact good b needs (split ▸ needs.2.2) again
  | cons d rest ih =>
      have hd : d ∈ a.dependencies := by simp [split]
      obtain ⟨b, hb, rfl⟩ := wired.closed a ha d hd
      have needs : Needs accessors a b := ⟨ha, hb, hd⟩
      have clear : ¬CycleFrom accessors b → ∀ x, Needs accessors a x →
          x.className ∈ before ++ [b.className] → ¬CycleFrom accessors x := by
        intro answer x hx hm
        cases List.mem_append.1 hm with
        | inl hm => exact good x hx hm
        | inr hm =>
            have named := List.mem_singleton.1 hm
            cases wired.names x hx.2.1 b hb (by rw [named])
            exact answer
      have split' : a.dependencies = (before ++ [b.className]) ++ rest := by simp [split]
      have mode := wired.modes b hb
      cases hbm : b.policy.mode with
      | sync =>
          rw [hbm] at mode
          cases m with
          | sync | async =>
              rw [List.map_cons, mode]
              apply Program.abides_bind
              apply (resolve b needs hbm).mono
              intro _ reply given
              obtain ⟨rfl, replies⟩ := given
              refine abides_noted fresh callable needs split good replies ?_ ?_
              · intro error he
                rw [he]
                rfl
              · intro inst he answer
                subst he
                exact ih (before ++ [b.className]) split' (clear answer) (deps ++ [inst.serial])
      | async =>
          rw [hbm] at mode
          cases m with
          | sync => cases hbm.symm.trans (wired.plain a b needs hm.symm)
          | async =>
              rw [List.map_cons, mode]
              apply Program.abides_bind
              apply (resolveAsync b needs hbm).mono
              intro _ reply given
              obtain ⟨rfl, replies⟩ := given
              refine abides_noted fresh callable needs split good replies ?_ ?_
              · intro error he
                rw [he]
                rfl
              · intro inst he answer
                subst he
                exact ih (before ++ [b.className]) split' (clear answer) (deps ++ [inst.serial])

end Calls

end Wiring
