import ScopedStore.Proofs.Script.Moves

/-!
# What a refused step reports

A step that is refused may have searched for a name before it failed, and the search is reported.
Nothing else is: whatever allocates a cell or binds a name comes after the last check of a step. The
combinators that steps are made of are treated first, then the steps.
-/

namespace ScopedStore

/-! ## Reports of calls on a session -/

namespace Session

variable {s : Session} {e : Env} {w : World} {name : String}

/-- A look-up reports that it searches, and nothing more. -/
theorem events_lookup (h : s.owns e = true) (w : World) (name : String) :
    (s.lookup w e name).events = #[.resolving name] := by
  unfold lookup
  cases hfind : w.find e name <;> simp [h, hfind]

/-- An assignment that finds its name reports the search and then the write, if that is dropped. -/
theorem events_assign_of_ok (h : s.owns e = true) {a : Address} (ha : w.find e name = .ok a)
    (v : Value) :
    (s.assign w e name v).events = #[.resolving name] ++ (s.store.write a v).events := by
  simp [assign, h, ha]

/-- An assignment that does not find its name reports the search alone. -/
theorem events_assign_of_error (h : s.owns e = true) {f : Fault} (hf : w.find e name = .error f)
    (v : Value) : (s.assign w e name v).events = #[.resolving name] := by
  simp [assign, h, hf]

end Session

namespace Script

def Searches (event : Event) : Prop :=
  ∃ name, event = .resolving name

/-- If a step is refused, it has reported searches only. -/
def OnlySearches (effect : Effect) : Prop :=
  ∀ refusal, effect.value.1 = .error refusal → ∀ event ∈ effect.events, Searches event

namespace OnlySearches

variable {m : Machine} {α : Type}

theorem of_ok {effect : Effect} {a : Answer} (h : effect.value.1 = .ok a) :
    OnlySearches effect := by
  intro refusal hrefused
  cases h.symm.trans hrefused

/-- A step that does not find what it needs reports nothing. -/
theorem found {x : Except Refusal α} {next : α → Effect}
    (h : ∀ a, x = .ok a → OnlySearches (next a)) : OnlySearches (m.found x next) := by
  cases x with
  | ok a => exact h a rfl
  | error refusal =>
      intro _ _ event hevent
      simp at hevent

theorem outcome {x : Except Fault α} {next : α → Effect}
    (h : ∀ a, x = .ok a → OnlySearches (next a)) : OnlySearches (m.outcome x next) := by
  cases x with
  | ok a => exact h a rfl
  | error fault =>
      intro _ _ event hevent
      simp [Machine.outcome] at hevent

/-- An operation that reports searches only, before the rest of a step. -/
theorem bind {op : Traced α} {rest : α → Effect} (hop : ∀ event ∈ op.events, Searches event)
    (hrest : OnlySearches (rest op.value)) : OnlySearches (op >>= rest) := by
  intro refusal hrefused event hevent
  simp only [Traced.events_bind, Array.mem_append] at hevent
  rcases hevent with hevent | hevent
  · exact hop event hevent
  · exact hrest refusal hrefused event hevent

end OnlySearches

namespace Machine

theorem searches_resolving {name : String} :
    ∀ event ∈ #[Event.resolving name], Searches event := by
  intro event hevent
  exact ⟨name, by simpa using hevent⟩

theorem searches_nothing : ∀ event ∈ (#[] : Array Event), Searches event := by
  intro event hevent
  simp at hevent

/-! ## Steps -/

/-- A call on a session makes all its checks before it allocates or binds anything. -/
theorem onlySearches_execSession (m : Machine) (step : SessionStep) :
    OnlySearches (m.execSession step) := by
  cases step with
  | create into capacities => exact .of_ok rfl
  | globalEnv id into => exact .found fun s _ => .of_ok rfl
  | bind id name raw => exact .found fun a _ => .found fun s _ => .of_ok rfl
  | define id name v => exact .found fun s _ => .of_ok rfl
  | defineMany id stem count => exact .found fun s _ => .of_ok rfl
  | enter id x names values into =>
      refine .found fun s _ => .found fun e _ => ?_
      -- The two checks of the call come before its allocations, so a failed call reports nothing.
      cases howns : s.owns e with
      | false =>
          simp only [Session.enter_of_not_owns howns]
          exact .bind searches_nothing (.outcome fun _ _ => .of_ok rfl)
      | true =>
          by_cases hl : names.length = values.length
          · refine .of_ok (a := .depth (s.entered m.world e names values).depth) ?_
            simp only [Traced.value_bind, Session.value_enter howns hl]
            rfl
          · simp only [Session.enter_of_length_ne howns hl]
            exact .bind searches_nothing (.outcome fun _ _ => .of_ok rfl)
  | lookup id x name =>
      refine .found fun s _ => .found fun e _ => .bind ?_ (.outcome fun _ _ => .of_ok rfl)
      cases howns : s.owns e with
      | false => simp [Session.lookup_of_not_owns howns]
      | true => simpa only [Session.events_lookup howns] using searches_resolving
  | assign id x name v =>
      refine .found fun s _ => .found fun e _ => ?_
      cases howns : s.owns e with
      | false =>
          simp only [Session.assign_of_not_owns howns]
          exact .bind searches_nothing (.outcome fun _ _ => .of_ok rfl)
      | true =>
          cases hfind : m.world.find e name with
          | ok a =>
              refine .of_ok (a := .done) ?_
              simp only [Traced.value_bind, Session.value_assign_of_ok howns hfind]
              rfl
          | error fault =>
              refine .bind ?_ (.outcome fun _ _ => .of_ok rfl)
              simpa only [Session.events_assign_of_error howns hfind] using searches_resolving

/-- A step on a store reports what it has done only when it succeeds. -/
theorem onlySearches_execStore (m : Machine) (step : StoreStep) :
    OnlySearches (m.execStore step) := by
  cases step with
  | create into => exact .of_ok rfl
  | copy store into => exact .found fun s _ => .of_ok rfl
  | same a b => exact .found fun s _ => .found fun t _ => .of_ok rfl
  | alloc store v => exact .found fun s _ => .of_ok rfl
  | allocMany store v count => exact .found fun s _ => .of_ok rfl
  | read store raw => exact .found fun a _ => .found fun s _ => .outcome fun v _ => .of_ok rfl
  | write store raw v => exact .found fun a _ => .found fun s _ => .of_ok rfl
  | lastAddressOf store v => exact .found fun s _ => .of_ok rfl
  | size store => exact .found fun s _ => .of_ok rfl
  | cells store => exact .found fun s _ => .of_ok rfl

theorem onlySearches_execEnv (m : Machine) (step : EnvStep) : OnlySearches (m.execEnv step) := by
  cases step with
  | create into => exact .of_ok rfl
  | copy x into => exact .found fun e _ => .of_ok rfl
  | nest names raws x count into =>
      exact .found fun addresses _ => .found fun e _ => .outcome fun f _ => .of_ok rfl
  | resolve x name =>
      exact .found fun e _ => .bind searches_resolving (.outcome fun a _ => .of_ok rfl)
  | findGlobal x name => exact .found fun e _ => .outcome fun a _ => .of_ok rfl
  | kind x => exact .found fun e _ => .of_ok rfl
  | sameFrame a b => exact .found fun e _ => .found fun f _ => .of_ok rfl
  | sameRoot a b => exact .found fun e _ => .found fun f _ => .of_ok rfl
  | bindGlobal x name raw => exact .found fun a _ => .found fun e _ => .of_ok rfl
  | global x into => exact .found fun e _ => .of_ok rfl
  | enclosing x into => exact .found fun e _ => .found fun f _ => .of_ok rfl
  | describe x => exact .found fun e _ => .of_ok rfl

theorem onlySearches_execGlobals (m : Machine) (step : GlobalsStep) :
    OnlySearches (m.execGlobals step) := by
  cases step with
  | create into => exact .of_ok rfl
  | copy id into => exact .found fun g _ => .of_ok rfl
  | bind id name raw => exact .found fun a _ => .found fun g _ => .of_ok rfl
  | find id name => exact .found fun g _ => .outcome fun a _ => .of_ok rfl
  | describe id => exact .found fun g _ => .of_ok rfl
  | toEnv id into => exact .found fun g _ => .of_ok rfl

theorem onlySearches_execCell (m : Machine) (step : CellStep) : OnlySearches (m.execCell step) := by
  cases step with
  | create into n => exact .of_ok rfl
  | share cell into => exact .found fun r _ => .of_ok rfl
  | set cell n => exact .found fun r _ => .of_ok rfl
  | get cell => exact .found fun r _ => .of_ok rfl
  | same a b => exact .found fun r _ => .found fun s _ => .of_ok rfl

/-- No step that is refused has reported anything but searches. -/
theorem onlySearches_exec (m : Machine) (step : Step) : OnlySearches (m.exec step) := by
  cases step with
  | session step => exact m.onlySearches_execSession step
  | store step => exact m.onlySearches_execStore step
  | env step => exact m.onlySearches_execEnv step
  | globals step => exact m.onlySearches_execGlobals step
  | cell step => exact m.onlySearches_execCell step
  | drop kind id => cases kind <;> exact .of_ok rfl
  | inspect kind id => cases kind <;> exact .found fun _ _ => .of_ok rfl

end Machine

end Script

end ScopedStore
