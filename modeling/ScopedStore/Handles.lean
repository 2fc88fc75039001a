import Std.Data.ExtTreeMap
import ScopedStore.Pool

/-!
# Handles on shared slots

Named handles, each of which refers to a slot. A handle is made on a fresh slot or shares the slot of
another handle; in both cases what its name stood for before is forgotten. A slot is changed and read
through any of its handles, and dropping handles leaves it as it is.
-/

namespace ScopedStore

/-- The slots created so far, and the handles by their names. -/
structure Handles (α : Type) where
  slots : Pool α := {}
  held : Std.ExtTreeMap String (Ref α) compare := {}

namespace Handles

variable {α : Type}

instance : Inhabited (Handles α) := ⟨{}⟩

inductive Call (α : Type) where
  | create (into : String) (a : α)
  | share (x into : String)
  /-- Changes what is behind a handle, in view of what is there. -/
  | write (x : String) (f : α → α)
  | read (x : String)
  | same (x y : String)
  | drop (x : String)

inductive Reply (α : Type) where
  | done
  | value (a : α)
  | flag (b : Bool)
  /-- There is no handle of this name. -/
  | missing (x : String)

def through (s : Handles α) (x : String) (call : Ref α → Reply α) : Reply α :=
  s.held[x]?.elim (.missing x) call

def reply (s : Handles α) : Call α → Reply α
  | .create _ _ => .done
  | .share x _ => s.through x fun _ => .done
  | .write x _ => s.through x fun _ => .done
  | .read x => s.through x fun r => (s.slots.get? r).elim (.missing x) .value
  | .same x y => s.through x fun r => s.through y fun t => .flag (r = t)
  | .drop x => .flag (s.held.contains x)

/-- The handles after a call; without its handle a call changes nothing. -/
def next (s : Handles α) : Call α → Handles α
  | .create into a =>
    let (r, slots) := s.slots.alloc a
    ⟨slots, s.held.insert into r⟩
  | .share x into => s.held[x]?.elim s fun r => { s with held := s.held.insert into r }
  | .write x f => s.held[x]?.elim s fun r => { s with slots := s.slots.modify r f }
  | .read _ => s
  | .same _ _ => s
  | .drop x => { s with held := s.held.erase x }

/-- The handles after calls that are listed from the newest to the oldest. -/
def after : List (Call α) → Handles α
  | [] => {}
  | call :: earlier => (after earlier).next call

@[simp] theorem after_nil : after ([] : List (Call α)) = {} := rfl

@[simp] theorem after_cons (call : Call α) (earlier : List (Call α)) :
    after (call :: earlier) = (after earlier).next call := rfl

end Handles

end ScopedStore
