/-!
# Capacities

How much room a new session reserves. Reserving room has no effect on any answer; the numbers
appear in the event that announces the session.
-/

namespace ScopedStore

structure Capacities where
  store : Nat := 64
  globals : Nat := 32
  deriving DecidableEq

namespace Capacities

instance : Inhabited Capacities := ⟨{}⟩

def display (c : Capacities) : String :=
  "SessionConfig \x7b store_capacity: " ++ toString c.store ++ ", global_capacity: "
    ++ toString c.globals ++ " \x7d"

end Capacities

end ScopedStore
