import ScopedStore.Proofs.Direct.Scopes
import ScopedStore.Session

/-!
# An evaluator over one session

The same calls as for scopes that hold their values directly, answered by a session. The
evaluator keeps the environments that its calls entered, newest first, so that a later call can
name any of them.
-/

namespace ScopedStore.Direct

/-- A session, the world of its frames, and the environments entered so far, newest first. -/
structure Evaluator where
  session : Session
  world : World
  entered : List Env := []

def numbered {α : Type} : List α → Nat → Option α
  | [], _ => none
  | a :: older, n => if n = older.length then some a else numbered older n

def chainOf (root : Ref Globals) (entered : List Env) : Option Nat → Option Env
  | none => some (.ofRoot root)
  | some n => numbered entered n

namespace Evaluator

/-- An evaluator whose session was only just opened, in a world that may hold other frames. -/
def fresh (w : World) (capacities : Capacities) : Evaluator :=
  let (session, world) := (Session.create w capacities).value
  { session, world }

def env? (x : Evaluator) (scope : Option Nat) : Option Env :=
  chainOf x.session.root x.entered scope

def call (x : Evaluator) : Call → Outcome × Evaluator
  | .define name v =>
    let (_, session, world) := (x.session.define x.world name v).value
    (.defined, { x with session, world })
  | .enter scope names values =>
    match x.env? scope with
    | none => (.noScope, x)
    | some e =>
      match (x.session.enter x.world e names values).value with
      | (.ok inner, session, world) =>
        (.entered (inner.frames.map Frame.names), { session, world, entered := inner :: x.entered })
      | (.error f, session, world) => (.fault f, { x with session, world })
  | .lookup scope name =>
    match x.env? scope with
    | none => (.noScope, x)
    | some e =>
      match (x.session.lookup x.world e name).value with
      | .ok v => (.value v, x)
      | .error f => (.fault f, x)
  | .assign scope name v =>
    match x.env? scope with
    | none => (.noScope, x)
    | some e =>
      match (x.session.assign x.world e name v).value with
      | (.ok _, session) => (.assigned, { x with session })
      | (.error f, session) => (.fault f, { x with session })

def run (x : Evaluator) : List Call → List Outcome × Evaluator
  | [] => ([], x)
  | c :: rest =>
    let (outcome, x) := x.call c
    let (outcomes, x) := x.run rest
    (outcome :: outcomes, x)

/-! ## Where bindings stand -/

/-- One binding: its position in the history of the global frame, or in a nested frame. -/
inductive Occurrence where
  | global (position : Nat)
  | nested (frame : Nat) (position : Nat)
  deriving DecidableEq

/-- The address that a binding holds, in the global frame or in a frame of an entered chain. -/
inductive Holds (x : Evaluator) : Occurrence → Address → Prop where
  | global {i : Nat} {name : String} {a : Address} :
      (x.world.globals x.session.root).history[i]? = some (name, a) → Holds x (.global i) a
  | nested {e : Env} {f : Frame} {i : Nat} {name : String} {a : Address} :
      e ∈ x.entered → f ∈ e.frames → f.bindings[i]? = some (name, a) →
        Holds x (.nested f.id i) a

end Evaluator

end ScopedStore.Direct
