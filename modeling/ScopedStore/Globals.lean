import Std.Data.ExtTreeMap
import ScopedStore.Traced

/-!
# The global frame

The outermost frame of a chain. It only grows: a later binding of a name shadows the earlier
ones and erases none. An index from each name to its newest address spares look-ups the scan
of the history.
-/

namespace ScopedStore

/-- The bindings of a global frame: all of them, oldest first, and the newest of each name. -/
structure Globals where
  history : Array (String × Address) := #[]
  newest : Std.ExtTreeMap String Address compare := {}

namespace Globals

instance : Inhabited Globals := ⟨{}⟩

def size (g : Globals) : Nat :=
  g.history.size

def isEmpty (g : Globals) : Bool :=
  g.history.isEmpty

def binds (g : Globals) (name : String) : Bool :=
  g.newest.contains name

def push (g : Globals) (name : String) (a : Address) : Globals where
  history := g.history.push (name, a)
  newest := g.newest.insert name a

def bind (g : Globals) (name : String) (a : Address) : Traced Globals := do
  Traced.emit (.nameBound name a (g.binds name))
  pure (g.push name a)

def find (g : Globals) (name : String) : Except Fault Address :=
  match g.newest[name]? with
  | some a => .ok a
  | none => .error (.unbound name)

def bindings (g : Globals) : List (String × Address) :=
  g.history.toList.reverse

/-! ## Each operation through the bindings -/

@[simp] theorem value_bind (g : Globals) (name : String) (a : Address) :
    (g.bind name a).value = g.push name a := rfl

@[simp] theorem events_bind (g : Globals) (name : String) (a : Address) :
    (g.bind name a).events = #[.nameBound name a (g.binds name)] := rfl

/-- A further binding is the first that a scan meets. -/
@[simp] theorem bindings_push (g : Globals) (name : String) (a : Address) :
    (g.push name a).bindings = (name, a) :: g.bindings := by
  simp [push, bindings]

/-- The newest binding of a name decides what is found. -/
theorem find_push (g : Globals) (name other : String) (a : Address) :
    (g.push name a).find other = if other = name then .ok a else g.find other := by
  by_cases h : other = name
  · simp [push, find, h]
  · have hne : ¬ name = other := fun e => h e.symm
    simp [push, find, h, Std.ExtTreeMap.getElem?_insert, hne]

end Globals

end ScopedStore
