import Mathlib.Data.List.Chain
import Wiring.Proofs.Registry.Alone
import Wiring.Proofs.Registry.Brackets

/-!
What observers hear. Some steps are the cause of a notice, and while a client works alone every
observer hears the notices of these steps, one for each and in their order. The notices of runs are
brackets, and the notice of an eager registration comes right after those of its run.
-/
namespace Wiring.Registry

def Action.cause : (a : Action) → a.Response → List Notice
  | .beginRun _ key _, _ => [.producing key]
  | .endRun _ key _ _ outcome, _ => [.ending key outcome]
  | .publish _ e, _ => [.registered e.key e.policy]
  | .clearEntries, dropped => [.reset dropped]
  | _, _ => []

def Action.gives (i : Nat) : Action → List Notice
  | .observe j notice => if j = i then [notice] else []
  | _ => []

namespace History

def causes (h : History) : List Notice := h.reverse.flatMap fun p => p.action.cause p.response

def heard (i : Nat) (h : History) : List Notice := h.reverse.flatMap fun p => p.action.gives i

end History

/-- Takes a notice in with the runs under way on a stack, the innermost first. -/
def Notice.nest : List Key → Notice → Option (List Key)
  | runs, .producing key => some (key :: runs)
  | top :: runs, .produced key | top :: runs, .failed key _ => if key = top then some runs else none
  | [], .produced _ | [], .failed _ _ => none
  | runs, .registered _ _ | runs, .reset _ => some runs

/-- An eager registration is told of right after the run for it. -/
def Notice.Prompt (before now : Notice) : Prop :=
  ∀ key policy, now = .registered key policy → policy.isEager → before = .produced key

/-- Eager registrations are told of right after their runs, and nowhere else. -/
structure Timely (notices : List Notice) : Prop where
  prompt : notices.IsChain Notice.Prompt
  first : ∀ key policy, notices.head? = some (.registered key policy) → policy.isEager = false

/-- Each run is told of at its beginning and at its end, and runs are nested in each other. -/
def Bracketed (notices : List Notice) : Prop := ∀ runs, notices.foldlM Notice.nest runs = some runs

section Words

variable {notices more : List Notice} {key : Key} {policy : Policy}

theorem Timely.append (timely : Timely notices) (timely' : Timely more) :
    Timely (notices ++ more) where
  prompt := by
    refine List.isChain_append.2 ⟨timely.prompt, timely'.prompt, fun x _ y hy => ?_⟩
    rintro key policy rfl eager
    cases (timely'.first key policy hy).symm.trans eager
  first key policy h := by
    cases notices with
    | nil => exact timely'.first key policy h
    | cons x rest => exact timely.first key policy h

theorem timely_single {notice : Notice}
    (h : ∀ key policy, notice = .registered key policy → policy.isEager = false) :
    Timely [notice] :=
  ⟨.singleton _, fun key policy he => h key policy (Option.some.inj he)⟩

theorem timely_produced (key : Key) (policy : Policy) :
    Timely [.produced key, .registered key policy] where
  prompt := by
    refine .cons_cons ?_ (.singleton _)
    rintro key policy ⟨⟩ _
    rfl
  first := nofun

theorem Timely.bracket {α : Type} (timely : Timely notices) (key : Key)
    (result : Except ResolveError α) :
    Timely ([.producing key] ++ notices ++ [.ending key result]) := by
  have opening : Timely [.producing key] := timely_single nofun
  refine (opening.append timely).append (timely_single ?_)
  cases result <;> nofun

theorem Bracketed.append (nested : Bracketed notices) (nested' : Bracketed more) :
    Bracketed (notices ++ more) := by
  intro runs
  rw [List.foldlM_append, nested]
  exact nested' runs

theorem Bracketed.bracket {α : Type} (nested : Bracketed notices) (key : Key)
    (result : Except ResolveError α) :
    Bracketed ([.producing key] ++ notices ++ [.ending key result]) := by
  intro runs
  rw [List.append_assoc, List.foldlM_append]
  change (notices ++ [Notice.ending key result]).foldlM Notice.nest (key :: runs) = some runs
  rw [List.foldlM_append, nested]
  cases result with
  | ok | error => simp [Notice.ending, Notice.nest]

end Words

section Hearing

variable {n i : Nat} {me : ClientId} {h : History}

theorem History.causes_cons (p : Performed) (h : History) :
    History.causes (p :: h) = h.causes ++ p.action.cause p.response := by
  simp [History.causes]

theorem History.heard_cons (p : Performed) (h : History) :
    History.heard i (p :: h) = h.heard i ++ p.action.gives i := by
  simp [History.heard]

theorem History.tell_succ (n : Nat) (me : ClientId) (notice : Notice) (h : History) :
    h.tell (n + 1) me notice = ⟨me, .observe n notice, ()⟩ :: h.tell n me notice := by
  rw [tell, List.range_succ, List.foldl_append]
  rfl

theorem History.causes_tell (notice : Notice) : (h.tell n me notice).causes = h.causes := by
  induction n with
  | zero => rfl
  | succ n ih => rw [tell_succ, causes_cons, ih]; exact List.append_nil _

theorem History.heard_tell (notice : Notice) :
    (h.tell n me notice).heard i = h.heard i ++ if i < n then [notice] else [] := by
  induction n with
  | zero => exact (List.append_nil _).symm
  | succ n ih =>
      rw [tell_succ, heard_cons, ih, List.append_assoc]
      congr 1
      simp only [Action.gives]
      grind

end Hearing

/-- From one history to the other, every observer is told `word`, which is what the steps call for.
-/
structure Tells (n : Nat) (word : List Notice) (h h' : History) : Prop where
  causes : h'.causes = h.causes ++ word
  heard : ∀ i < n, h'.heard i = h.heard i ++ word

section Telling

variable {n : Nat} {me : ClientId} {h h' h'' : History} {word more : List Notice}

theorem Tells.refl (n : Nat) (h : History) : Tells n [] h h :=
  ⟨(List.append_nil _).symm, fun _ _ => (List.append_nil _).symm⟩

theorem Tells.trans (first : Tells n word h h') (rest : Tells n more h' h'') :
    Tells n (word ++ more) h h'' where
  causes := by rw [rest.causes, first.causes, List.append_assoc]
  heard i hi := by rw [rest.heard i hi, first.heard i hi, List.append_assoc]

/-- A step that is followed by the notice that it is the cause of. -/
theorem tells_after {a : Action} {r : a.Response} {notice : Notice} (cause : a.cause r = [notice]) :
    Tells n [notice] h (History.tell n me notice (⟨me, a, r⟩ :: h)) where
  causes := by rw [History.causes_tell, History.causes_cons, cause]
  heard i hi := by
    rw [History.heard_tell, History.heard_cons, if_pos hi]
    cases a with
    | observe => cases cause
    | _ => exact congrArg (· ++ [notice]) (List.append_nil _)

theorem tells_opened (slot : SlotId) (key : Key) (p : ProducerId) (run : Nat) :
    Tells n [.producing key] h (h.opened n me slot key p run) where
  causes := by
    rw [History.opened, History.causes_cons, History.causes_tell]
    rfl
  heard i hi := by
    rw [History.opened, History.heard_cons, History.heard_tell, if_pos hi]
    exact List.append_nil _

theorem tells_closed (slot : SlotId) (key : Key) (p : ProducerId) (run : Nat) (result : Resolved) :
    Tells n [.ending key result] h
      (h.closed n me slot key p run (result.map Instance.payload) result) := by
  refine tells_after ?_
  cases result with
  | ok | error => rfl

theorem tells_quiet {a : Action} {r : a.Response} (quiet : a.IsQuiet) :
    Tells n [] h (⟨me, a, r⟩ :: h) := by
  constructor
  · rw [History.causes_cons]
    cases a with
    | publish | beginRun | endRun | clearEntries => cases quiet
    | _ => rfl
  · intro i _
    rw [History.heard_cons]
    cases a with
    | observe => cases quiet
    | _ => rfl

/-- What stands between the notices of a run is told between them. -/
theorem Tells.run {slot : SlotId} {key : Key} {p : ProducerId} {run : Nat}
    (inner : Tells n word (h.opened n me slot key p run) h') (result : Resolved) :
    Tells n ([.producing key] ++ word ++ [.ending key result]) h
      (h'.closed n me slot key p run (result.map Instance.payload) result) :=
  ((tells_opened slot key p run).trans inner).trans (tells_closed slot key p run result)

theorem Brackets.tells (brackets : Brackets n me h h') :
    ∃ word, Tells n word h h' ∧ Bracketed word ∧ Timely word := by
  induction brackets with
  | none => exact ⟨[], .refl n _, fun _ => rfl, .nil, nofun⟩
  | append _ _ first rest =>
      obtain ⟨word, tells, nested, timely⟩ := first
      obtain ⟨more, tells', nested', timely'⟩ := rest
      exact ⟨word ++ more, tells.trans tells', nested.append nested', timely.append timely'⟩
  | quiet quiet => exact ⟨[], tells_quiet quiet, fun _ => rfl, .nil, nofun⟩
  | reset => exact ⟨_, tells_after rfl, fun _ => rfl, timely_single nofun⟩
  | @deferred _ e _ policy _ =>
      refine ⟨_, tells_after rfl, fun _ => rfl, timely_single ?_⟩
      rintro key policy' ⟨⟩
      exact policy
  | @made _ _ e p run result _ _ _ _ inner =>
      obtain ⟨word, tells, nested, timely⟩ := inner
      exact ⟨_, tells.run result, nested.bracket e.key result, timely.bracket e.key result⟩
  | @spoiled _ _ slot key p run error _ _ inner =>
      obtain ⟨word, tells, nested, timely⟩ := inner
      exact ⟨_, tells.run (.error error), nested.bracket key (.error error : Resolved),
        timely.bracket key (.error error : Resolved)⟩
  | @eager _ _ e stored p run inst _ _ policy _ inner =>
      obtain ⟨word, tells, nested, timely⟩ := inner
      refine ⟨_, (tells.run (.ok inst)).trans (tells_after rfl), ?_, ?_⟩
      · exact (nested.bracket e.key (.ok inst : Resolved)).append fun _ => rfl
      · rw [List.append_assoc]
        have opening : Timely [.producing e.key] := timely_single nofun
        exact (opening.append timely).append (timely_produced e.key e.policy)

end Telling

/-- What a client does that works alone is well told of, whatever it demands and whatever producers
ask for. Every observer hears the notices that the steps call for, one for each step and in their
order: runs begin and end as brackets do, and a run that fails ends with the error of its producer.
Eager registrations are told of right after their runs, and every other entry before its producer is
first run for it. -/
theorem notices_bracketed (setting : Setting) (me : ClientId) (demands : List Demand) :
    ∃ replies w, inTurn setting me demands .empty [] = some (replies, w) ∧
      Brackets setting.observers me [] w.history ∧
        (∀ i < setting.observers, w.history.heard i = w.history.causes) ∧
          Bracketed w.history.causes ∧ Timely w.history.causes := by
  have nobody : lone me [] = fun _ => [] := Function.update_eq_self ..
  have at_ : Situated (.plain setting.observers (some me)) (fun _ _ _ _ => True) me []
      ⟨.empty, .empty, []⟩ := ⟨rfl, [], nobody ▸ tenure_start _, trivial⟩
  obtain ⟨replies, w, _, ran, -⟩ := at_.run rfl (fun _ _ => trivial)
    (abides_work (runScript setting 0) demands)
  obtain ⟨-, brackets, -⟩ := (bracketing setting me).work demands (h := []) _ (List.suffix_refl _)
    ⟨.start setting me, nofun⟩ _ w ran
  obtain ⟨word, tells, nested, timely⟩ := brackets.tells
  have causes : w.history.causes = word := tells.causes
  refine ⟨replies, w, ran, brackets, fun i hi => ?_, causes ▸ nested, causes ▸ timely⟩
  rw [causes]
  exact tells.heard i hi

def pageKey : Key := ⟨"app::Page", "Page"⟩

def styleKey : Key := ⟨"app::Style", "Style"⟩

def pageSetting : Setting where
  observers := 2
  accessor key :=
    if key = styleKey then
      ⟨.lazySingleton, fun _ _ => .finish (.error (.producer "no style"))⟩
    else
      ⟨.singleton, fun _ _ => .call (.resolve styleKey) fun _ => .finish (.ok ⟨none, []⟩)⟩

example : (inTurn pageSetting 0 [⟨.inl (.resolve pageKey), .plain⟩] .empty []).map
    (fun x => x.2.history.heard 1) = some [.producing pageKey, .registered styleKey .lazySingleton,
      .producing styleKey, .failed styleKey (.producer "no style"), .produced pageKey,
      .registered pageKey .singleton] := by
  rfl

end Wiring.Registry
