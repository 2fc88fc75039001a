import ScopedStore.Script.Run

/-!
# Replies and machines along a script

Names for the two halves of a step's effect, and for the machine that a whole script leaves. The
effects of a run are the effects of its steps, each on the machine that the steps before it left.
-/

namespace ScopedStore.Script

/-! ## Faults as refusals -/

@[simp] theorem mapError_ok {α : Type} (a : α) :
    (Except.ok a : Except Fault α).mapError Refusal.fault = .ok a := rfl

@[simp] theorem mapError_error {α : Type} (f : Fault) :
    (Except.error f : Except Fault α).mapError Refusal.fault = .error (.fault f) := rfl

namespace Machine

/-! ## Replies and runs -/

/-- What a step answers, or why it is refused. -/
def reply (m : Machine) (step : Step) : Except Refusal Answer :=
  (m.exec step).value.1

def next (m : Machine) (step : Step) : Machine :=
  (m.exec step).value.2

/-- The machine that a script leaves. -/
def last (m : Machine) (steps : List Step) : Machine :=
  steps.foldl next m

@[simp] theorem last_nil (m : Machine) : m.last [] = m := rfl

@[simp] theorem last_cons (m : Machine) (step : Step) (rest : List Step) :
    m.last (step :: rest) = (m.next step).last rest := rfl

/-- A script may be cut in two, and the second part begins where the first has ended. -/
theorem last_append (m : Machine) (pre post : List Step) :
    m.last (pre ++ post) = (m.last pre).last post :=
  List.foldl_append

theorem run_append (pre post : List Step) :
    ∀ m : Machine, m.run (pre ++ post) = m.run pre ++ (m.last pre).run post := by
  induction pre with
  | nil =>
      intro m
      rfl
  | cons step rest ih =>
      intro m
      have hrest := ih (m.next step)
      exact congrArg (m.exec step :: ·) hrest

/-- A step of a run has its effect on the machine that the steps before it left. -/
theorem run_getElem? (m : Machine) (pre : List Step) (step : Step) (post : List Step) :
    (m.run (pre ++ step :: post))[pre.length]? = some ((m.last pre).exec step) := by
  have hlen : (m.run pre).length = pre.length := length_run m pre
  rw [run_append, ← hlen, List.getElem?_append_right (Nat.le_refl _), Nat.sub_self]
  rfl

/-- What every step keeps, a script keeps. -/
theorem last_induction {P : Machine → Prop} (hstep : ∀ m step, P m → P (m.next step))
    (steps : List Step) : ∀ {m : Machine}, P m → P (m.last steps) := by
  induction steps with
  | nil =>
      intro m h
      exact h
  | cons step rest ih =>
      intro m h
      exact ih (hstep m step h)

end Machine

end ScopedStore.Script
