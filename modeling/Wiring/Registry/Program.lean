import Wiring.Registry.Action

/-!
Programs over atomic steps. A client's work is a tree of steps, each chosen by what the earlier
ones returned; `Program.run` lets one client work alone, and `Machine.step` lets any client of many
take its next step.
-/
namespace Wiring.Registry

inductive Program (α : Type) : Type
  | done (value : α)
  | step (action : Action) (next : action.Response → Program α)

namespace Program

def bind {α β : Type} : Program α → (α → Program β) → Program β
  | done a, f => f a
  | step action next, f => step action fun r => (next r).bind f

instance : Monad Program where
  pure := done
  bind := bind

def perform (action : Action) : Program action.Response := step action done

theorem bind_done {α : Type} (p : Program α) : p.bind done = p := by
  induction p with
  | done a => rfl
  | step action next ih => exact congrArg (step action) (funext ih)

theorem bind_assoc {α β γ : Type} (p : Program α) (f : α → Program β) (g : β → Program γ) :
    (p.bind f).bind g = p.bind fun a => (f a).bind g := by
  induction p with
  | done a => rfl
  | step action next ih => exact congrArg (step action) (funext ih)

instance : LawfulMonad Program :=
  LawfulMonad.mk' Program bind_done (fun _ _ => rfl) bind_assoc

end Program

structure Performed where
  client : ClientId
  action : Action
  response : action.Response

/-- The steps taken so far, the latest first. -/
abbrev History := List Performed

structure Situation where
  trail : Trail
  store : Store
  history : History

namespace Program

/-- One step taken by `me`, entered into the history. -/
def advance (me : ClientId) (action : Action) (w : Situation) :
    Option (action.Response × Situation) :=
  match action.perform me w.trail w.store with
  | some (response, trail, store) =>
      some (response, ⟨trail, store, ⟨me, action, response⟩ :: w.history⟩)
  | none => none

/-- All steps of `me` with nobody else at work, `none` where one of them has to wait. -/
def run {α : Type} (me : ClientId) : Program α → Situation → Option (α × Situation)
  | done a, w => some (a, w)
  | step action next, w =>
      match advance me action w with
      | some (r, w') => (next r).run me w'
      | none => none

/-- The steps of `me` up to its next pause, and the program that is left after it. -/
def runToPause {α : Type} (me : ClientId) : Program α → Situation → Option (Program α × Situation)
  | done a, w => some (done a, w)
  | step action next, w =>
      match advance me action w with
      | some (r, w') =>
          if action.isPause then some (next r, w') else (next r).runToPause me w'
      | none => none

end Program

/-- A client at work: its trail and the program it has left. -/
structure Client where
  trail : Trail
  program : Program (List Reply)

structure Machine where
  clients : List Client
  store : Store
  history : History

/-- The next step of client `me`, where it has one and need not wait. -/
def Machine.step (m : Machine) (me : ClientId) : Option Machine :=
  match m.clients[me]? with
  | some ⟨trail, .step action next⟩ =>
      match action.perform me trail m.store with
      | some (r, trail', store) =>
          some ⟨m.clients.set me ⟨trail', next r⟩, store, ⟨me, action, r⟩ :: m.history⟩
      | none => none
  | _ => none

end Wiring.Registry
