import ScopedStore.Event

/-!
# Traced computations

A computation that returns a value and the events it reported. Sequencing appends the
events, so a trace reads in the order in which things happened; nothing that runs later can
take back an event.
-/

namespace ScopedStore

/-- A value together with the events reported on the way to it. -/
structure Traced (α : Type) where
  value : α
  events : Array Event := #[]

namespace Traced

variable {α β γ : Type}

/-- A traced computation is its value and its events. -/
@[ext] theorem ext {x y : Traced α} (value : x.value = y.value) (events : x.events = y.events) :
    x = y := by
  cases x
  cases y
  simp_all

def emit (e : Event) : Traced Unit :=
  ⟨(), #[e]⟩

instance : Monad Traced where
  pure a := ⟨a, #[]⟩
  bind x f :=
    let y := f x.value
    ⟨y.value, x.events ++ y.events⟩

/-- Runs a step for `0, 1, …, n - 1`, each on what the one before returned. -/
def iterate (n : Nat) (step : Nat → α → Traced α) (a : α) : Traced α :=
  n.fold (fun i _ acc => acc >>= step i) (pure a)

/-! ## Values and events of each form -/

@[simp] theorem value_emit (e : Event) : (emit e).value = () := rfl

@[simp] theorem events_emit (e : Event) : (emit e).events = #[e] := rfl

@[simp] theorem value_pure (a : α) : (pure a : Traced α).value = a := rfl

@[simp] theorem events_pure (a : α) : (pure a : Traced α).events = #[] := rfl

@[simp] theorem value_bind (x : Traced α) (f : α → Traced β) :
    (x >>= f).value = (f x.value).value := rfl

@[simp] theorem events_bind (x : Traced α) (f : α → Traced β) :
    (x >>= f).events = x.events ++ (f x.value).events := rfl

@[simp] theorem value_map (g : α → β) (x : Traced α) : (g <$> x).value = g x.value := rfl

@[simp] theorem events_map (g : α → β) (x : Traced α) : (g <$> x).events = x.events :=
  Array.append_empty

instance : LawfulMonad Traced :=
  LawfulMonad.mk' Traced
    (fun x => ext rfl (by simp))
    (fun _ _ => ext rfl (by simp))
    (fun _ _ _ => ext rfl (by simp))

@[simp] theorem iterate_zero (step : Nat → α → Traced α) (a : α) :
    iterate 0 step a = pure a := rfl

/-- The last step runs on what all steps before it return. -/
theorem iterate_succ (n : Nat) (step : Nat → α → Traced α) (a : α) :
    iterate (n + 1) step a = iterate n step a >>= step n := by
  simp [iterate]

end Traced

end ScopedStore
