import ScopedStore.Proofs.Handles.Shared
import ScopedStore.Proofs.Script.Aside

/-!
# Shared cells of a script

The registers of shared cells are handles on slots. A step on them changes and answers what the call
that it makes does, and no other step touches them. So what is shown of handles after any calls holds
of the shared cells after any script.
-/

namespace ScopedStore.Script

def Step.handleCall? : Step → Option (Handles.Call Int64)
  | .cell (.create into n) => some (.create into n)
  | .cell (.share x into) => some (.share x into)
  | .cell (.set x n) => some (.write x fun _ => n)
  | .cell (.get x) => some (.read x)
  | .cell (.same x y) => some (.same x y)
  | .drop .cell x => some (.drop x)
  | _ => none

def answered : Handles.Reply Int64 → Except Refusal Answer
  | .done => .ok .done
  | .value n => .ok (.int n)
  | .flag b => .ok (.flag b)
  | .missing x => .error (.missing x)

namespace Machine

def handles (m : Machine) : Handles Int64 :=
  ⟨m.slots, m.cells⟩

variable {m : Machine}

/-! ## Steps on other registers -/

theorem handles_of_aside {effect : Effect} (h : Leaves aside m.aside effect) :
    effect.value.2.handles = m.handles :=
  congrArg (fun parts : Aside => (⟨parts.slots, parts.cells⟩ : Handles Int64)) h

/-- Steps on global frames in registers have no use for shared cells. -/
theorem handles_execGlobals (m : Machine) (step : GlobalsStep) :
    Leaves handles m.handles (m.execGlobals step) := by
  cases step with
  | create into => exact rfl
  | copy id into => exact .found rfl fun g => rfl
  | bind id name raw => exact .found rfl fun a => .found rfl fun g => rfl
  | find id name => exact .found rfl fun g => .outcome rfl fun a => rfl
  | describe id => exact .found rfl fun g => rfl
  | toEnv id into => exact .found rfl fun g => rfl

/-! ## Steps on shared cells -/

/-- A step on shared cells does to the handles what its call does. -/
theorem handles_execCell (m : Machine) (step : CellStep) :
    (m.execCell step).value.2.handles =
      ((Step.cell step).handleCall?.elim m.handles m.handles.next) := by
  cases step with
  | create into n => rfl
  | share cell into =>
      simp only [execCell, register?, Step.handleCall?, Option.elim, Handles.next, handles]
      cases m.cells[cell]? <;> rfl
  | set cell n =>
      simp only [execCell, register?, Step.handleCall?, Option.elim, Handles.next, handles]
      cases m.cells[cell]? <;> rfl
  | get cell => exact Leaves.found rfl fun r => rfl
  | same a b => exact Leaves.found rfl fun r => .found rfl fun t => rfl

/-- A step changes the handles like the call that it makes, if it makes one. -/
theorem handles_next (m : Machine) (step : Step) :
    (m.next step).handles = step.handleCall?.elim m.handles m.handles.next := by
  cases step with
  | session step => exact handles_of_aside (m.aside_execSession step)
  | store step => exact handles_of_aside (m.aside_execStore step)
  | env step => exact handles_of_aside (m.aside_execEnv step)
  | globals step => exact m.handles_execGlobals step
  | cell step => exact m.handles_execCell step
  | drop kind id => cases kind <;> rfl
  | inspect kind id => exact leaves_inspect handles m id kind

/-- A script makes the calls of its steps, and the last of them is the newest. -/
theorem handles_last (steps : List Step) :
    ∀ {m : Machine} {earlier : List (Handles.Call Int64)}, m.handles = Handles.after earlier →
      (m.last steps).handles =
        Handles.after ((steps.filterMap Step.handleCall?).reverse ++ earlier) := by
  induction steps with
  | nil =>
      intro m earlier h
      exact h
  | cons step rest ih =>
      intro m earlier h
      have hnext := m.handles_next step
      cases hcall : step.handleCall? with
      | none =>
          rw [hcall] at hnext
          simpa [hcall] using ih (hnext.trans h)
      | some call =>
          rw [hcall, h] at hnext
          have hrest := @ih (m.next step) (call :: earlier) hnext
          simpa [hcall] using hrest

/-- A step is answered like the call that it makes, as long as all registers refer to cells. -/
theorem reply_of_handleCall {step : Step} {call : Handles.Call Int64}
    (hcells : ∀ (x : String) (r : Ref Int64), m.cells[x]? = some r → (m.slots.get? r).isSome)
    (hcall : step.handleCall? = some call) : m.reply step = answered (m.handles.reply call) := by
  cases step with
  | cell step =>
      cases step with
      | create into n =>
          cases hcall
          rfl
      | share cell into =>
          cases hcall
          simp only [reply, exec, execCell, register?, Handles.reply, Handles.through, handles]
          cases m.cells[cell]? <;> rfl
      | set cell n =>
          cases hcall
          simp only [reply, exec, execCell, register?, Handles.reply, Handles.through, handles]
          cases m.cells[cell]? <;> rfl
      | get cell =>
          cases hcall
          simp only [reply, exec, execCell, register?, Handles.reply, Handles.through, handles]
          cases hr : m.cells[cell]? with
          | none => rfl
          | some r =>
              rcases Option.isSome_iff_exists.1 (hcells cell r hr) with ⟨n, hn⟩
              simp [slot, hn, answer, answered]
      | same a b =>
          cases hcall
          simp only [reply, exec, execCell, register?, Handles.reply, Handles.through, handles]
          cases m.cells[a]? with
          | none => rfl
          | some r => cases m.cells[b]? <;> rfl
  | drop kind id =>
      cases kind with
      | cell =>
          cases hcall
          rfl
      | _ => cases hcall
  | _ => cases hcall

/-- Whatever is done with handles, those of one creation share one cell and those of different
creations share nothing. The shared cells of a script are handles, made by the steps on them in their
order, and each such step is answered like the call that it makes. -/
theorem cells_are_shared_by_creation :
    (∀ (α : Type) (calls : List (Handles.Call α)), Handles.SharedByCreation calls) ∧
    ∀ steps : List Step,
      let m := ({} : Machine).last steps
      let calls := (steps.filterMap Step.handleCall?).reverse
      m.handles = Handles.after calls ∧
        ∀ (step : Step) (call : Handles.Call Int64), step.handleCall? = some call →
          m.reply step = answered ((Handles.after calls).reply call) := by
  refine ⟨fun α => Handles.sharedByCreation, ?_⟩
  intro steps m calls
  have hhandles : m.handles = Handles.after calls := by
    simpa using @handles_last steps {} [] rfl
  refine ⟨hhandles, fun step call hcall => ?_⟩
  rw [← hhandles]
  refine reply_of_handleCall (fun x r hr => ?_) hcall
  rcases Handles.exists_tracks calls with ⟨birth, h⟩
  rw [← hhandles] at h
  have hlt := h.held x r hr
  exact Option.isSome_iff_exists.2 ⟨_, Array.getElem?_eq_getElem hlt⟩

/-- Two cells of equal contents, the first of which loses the handle that it was made with: they are
not the same, and a write through the handle that is left is read through it. -/
theorem shared_cell_outlives_its_first_handle :
    let steps : List Step := [.cell (.create "a" 7), .cell (.create "b" 7), .cell (.share "a" "c"),
      .drop .cell "a", .cell (.set "c" 9)]
    let m := ({} : Machine).last steps
    m.reply (.cell (.same "b" "c")) = .ok (.flag false) ∧
      m.reply (.cell (.get "c")) = .ok (.int 9) := by
  intro steps m
  rcases cells_are_shared_by_creation with ⟨hlaw, hscript⟩
  rcases hscript steps with ⟨-, hreply⟩
  have hshared := hlaw Int64 (steps.filterMap Step.handleCall?).reverse
  have hspared : Handles.Spared 0 [] (steps.filterMap Step.handleCall?).reverse := by
    intro after x f before h
    simp at h
  rcases hshared.last [] "c" (fun _ => 9) _ 0 "c" rfl rfl hspared rfl with ⟨a, -, hread⟩
  refine ⟨?_, ?_⟩
  · rw [hreply _ _ rfl, hshared.same "b" "c" 1 0 rfl rfl]
    rfl
  · rw [hreply _ _ rfl, hread]
    rfl

end Machine

end ScopedStore.Script
