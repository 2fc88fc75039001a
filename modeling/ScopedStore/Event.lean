import ScopedStore.Address
import ScopedStore.Capacities

/-!
# Events

What the operations report about themselves while they run, in the order in which it happens.
-/

namespace ScopedStore

inductive Level where
  | trace
  | debug
  | warn
  deriving DecidableEq

namespace Level

def display : Level → String
  | trace => "TRACE"
  | debug => "DEBUG"
  | warn => "WARN"

end Level

/-- One thing that an operation reports. -/
inductive Event where
  /-- A session was created with these capacities. -/
  | sessionCreated (capacities : Capacities)
  /-- A cell was allocated; the store now has `size` cells. -/
  | cellAllocated (address : Address) (size : Nat)
  /-- A root frame gained a binding, of a name that it bound before if `shadows`. -/
  | nameBound (name : String) (address : Address) (shadows : Bool)
  /-- A write past the end of a store of `size` cells was dropped. -/
  | writeIgnored (address : Address) (size : Nat)
  /-- The search for a name along a chain of frames begins. -/
  | resolving (name : String)
  /-- A second subscriber for events was not installed. -/
  | subscriberKept
  deriving DecidableEq

namespace Event

def level : Event → Level
  | resolving _ => .trace
  | writeIgnored _ _ => .warn
  | _ => .debug

/-- The fixed text of an event, which for a search is the name of the activity. -/
def title : Event → String
  | sessionCreated _ => "session created"
  | cellAllocated _ _ => "store extended"
  | nameBound _ _ _ => "global binding added"
  | writeIgnored _ _ => "ignoring store write to illegal address"
  | resolving _ => "resolve"
  | subscriberKept => "global subscriber already set; keeping it"

end Event

end ScopedStore
