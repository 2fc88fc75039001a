import ScopedStore.Proofs.Script.Runs

/-!
# What steps leave aside

Steps on sessions, stores and environments have no use for the shared cells and for the global
frames that stand alone in registers, so they leave both alone. The combinators that steps are made
of are treated first, for any part of a machine, and then the steps for the parts that they all leave
aside. What is said of one such part is read off `Machine.aside`.
-/

namespace ScopedStore.Script

/-- The effect ends in a machine with the value `v` in a part of it. -/
def Leaves {γ : Type} (part : Machine → γ) (v : γ) (effect : Effect) : Prop :=
  part effect.value.2 = v

namespace Leaves

variable {α γ : Type} {part : Machine → γ} {v : γ} {m : Machine}

/-- A step that finds nothing has left everything alone. -/
theorem found {x : Except Refusal α} {next : α → Effect} (hm : part m = v)
    (h : ∀ a, Leaves part v (next a)) : Leaves part v (m.found x next) := by
  cases x with
  | ok a => exact h a
  | error refusal => exact hm

/-- A step whose operation fails leaves what the operation has left. -/
theorem outcome {x : Except Fault α} {next : α → Effect} (hm : part m = v)
    (h : ∀ a, Leaves part v (next a)) : Leaves part v (m.outcome x next) :=
  found hm h

/-- Reports are no matter to the machine. -/
theorem bind {op : Traced α} {rest : α → Effect} (h : Leaves part v (rest op.value)) :
    Leaves part v (op >>= rest) :=
  h

end Leaves

namespace Machine

/-- An inspection leaves every part of the machine alone. -/
theorem leaves_inspect {γ : Type} (part : Machine → γ) (m : Machine) (id : String) (kind : Kind) :
    Leaves part (part m) (m.inspect id kind) := by
  cases kind <;> exact .found rfl fun _ => rfl

/-- The parts of a machine that steps on sessions, stores and environments leave aside. -/
structure Aside where
  slots : Pool Int64
  cells : Registers (Ref Int64)
  globals : Registers Globals

def aside (m : Machine) : Aside :=
  ⟨m.slots, m.cells, m.globals⟩

theorem globals_of_aside {m : Machine} {effect : Effect} (h : Leaves aside m.aside effect) :
    effect.value.2.globals = m.globals :=
  congrArg Aside.globals h

theorem aside_putStore (m : Machine) (id : String) (s : Store) :
    (m.putStore id s).aside = m.aside := by
  unfold putStore
  split <;> rfl

/-- A session has a store and a global frame of its own. -/
theorem aside_execSession (m : Machine) (step : SessionStep) :
    Leaves aside m.aside (m.execSession step) := by
  cases step with
  | create into capacities => exact rfl
  | globalEnv id into => exact .found rfl fun s => rfl
  | bind id name raw => exact .found rfl fun a => .found rfl fun s => rfl
  | define id name v => exact .found rfl fun s => rfl
  | defineMany id stem count => exact .found rfl fun s => rfl
  | enter id x names values into =>
      exact .found rfl fun s => .found rfl fun e => .bind (.outcome rfl fun f => rfl)
  | lookup id x name =>
      exact .found rfl fun s => .found rfl fun e => .bind (.outcome rfl fun v => rfl)
  | assign id x name v =>
      exact .found rfl fun s => .found rfl fun e => .bind (.outcome rfl fun u => rfl)

theorem aside_execStore (m : Machine) (step : StoreStep) :
    Leaves aside m.aside (m.execStore step) := by
  cases step with
  | create into => exact rfl
  | copy store into => exact .found rfl fun s => rfl
  | same a b => exact .found rfl fun s => .found rfl fun t => rfl
  | alloc store v => exact .found rfl fun s => m.aside_putStore store _
  | allocMany store v count => exact .found rfl fun s => m.aside_putStore store _
  | read store raw =>
      exact .found rfl fun a => .found rfl fun s => .outcome rfl fun v => rfl
  | write store raw v =>
      exact .found rfl fun a => .found rfl fun s => m.aside_putStore store _
  | lastAddressOf store v => exact .found rfl fun s => rfl
  | size store => exact .found rfl fun s => rfl
  | cells store => exact .found rfl fun s => rfl

/-- Environments are rooted in the global frames of the world, and not in those of registers. -/
theorem aside_execEnv (m : Machine) (step : EnvStep) :
    Leaves aside m.aside (m.execEnv step) := by
  cases step with
  | create into => exact rfl
  | nest names raws x count into =>
      exact .found rfl fun addresses => .found rfl fun e => .outcome rfl fun f => rfl
  | resolve x name => exact .found rfl fun e => .bind (.outcome rfl fun a => rfl)
  | findGlobal x name => exact .found rfl fun e => .outcome rfl fun a => rfl
  | sameFrame a b => exact .found rfl fun e => .found rfl fun f => rfl
  | sameRoot a b => exact .found rfl fun e => .found rfl fun f => rfl
  | bindGlobal x name raw => exact .found rfl fun a => .found rfl fun e => rfl
  | enclosing x into => exact .found rfl fun e => .found rfl fun f => rfl
  | _ => exact .found rfl fun e => rfl

end Machine

end ScopedStore.Script
