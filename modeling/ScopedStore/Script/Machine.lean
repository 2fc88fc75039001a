import ScopedStore.Env.Table
import ScopedStore.Script.Answer
import ScopedStore.Session

/-!
# The machine

A machine holds the registers of a script and everything they refer to. This module says how
registers are found and changed, and how a step on them ends.
-/

namespace ScopedStore.Script

abbrev Registers (α : Type) := Std.ExtTreeMap String α compare

/-- The registers, the global frames behind environments, and the contents of shared cells. -/
structure Machine where
  world : World := {}
  slots : Pool Int64 := {}
  sessions : Registers Session := {}
  stores : Registers Store := {}
  envs : Env.Table := {}
  globals : Registers Globals := {}
  cells : Registers (Ref Int64) := {}

/-- What a step does: its answer or refusal and the machine after it, with the events on the way. -/
abbrev Effect := Traced (Except Refusal Answer × Machine)

namespace Machine

instance : Inhabited Machine := ⟨{}⟩

/-! ## Registers and addresses -/

def address? (raw : Int64) : Except Refusal Address :=
  (Address.ofRaw raw).mapError .fault

/-- The addresses given to a step; the first bad one decides the refusal. -/
def addresses? (raws : List Int64) : Except Refusal (List Address) :=
  (raws.mapM Address.ofRaw).mapError .fault

def register? {α : Type} (registers : Registers α) (id : String) : Except Refusal α :=
  match registers[id]? with
  | some a => .ok a
  | none => .error (.missing id)

def env? (m : Machine) (id : String) : Except Refusal Env :=
  match m.envs.get? id with
  | some e => .ok e
  | none => .error (.missing id)

/-- The store in a register, or else the store of the session in the register of that name. -/
def store? (m : Machine) (id : String) : Except Refusal Store :=
  match m.stores[id]? with
  | some s => .ok s
  | none => (register? m.sessions id).map Session.store

/-- Puts a changed store back where `store?` finds it. -/
def putStore (m : Machine) (id : String) (s : Store) : Machine :=
  if m.stores.contains id then
    { m with stores := m.stores.insert id s }
  else
    { m with sessions := m.sessions.modify id fun x => { x with store := s } }

def slot (m : Machine) (r : Ref Int64) : Int64 :=
  (m.slots.get? r).getD 0

/-! ## Ways to end a step -/

def answer (m : Machine) (a : Answer) : Effect :=
  pure (.ok a, m)

/-- Goes on with what was found, or refuses the step. -/
def found {α : Type} (m : Machine) (x : Except Refusal α) (next : α → Effect) : Effect :=
  match x with
  | .ok a => next a
  | .error refusal => pure (.error refusal, m)

def outcome {α : Type} (m : Machine) (x : Except Fault α) (next : α → Effect) : Effect :=
  m.found (x.mapError .fault) next

def storeEnv (m : Machine) (into : String) (e : Env) : Effect :=
  { m with envs := m.envs.insert into e }.answer (.depth e.depth)

@[simp] theorem found_ok {α : Type} (m : Machine) (a : α) (next : α → Effect) :
    m.found (.ok a) next = next a := rfl

@[simp] theorem found_error {α : Type} (m : Machine) (r : Refusal) (next : α → Effect) :
    m.found (.error r) next = pure (.error r, m) := rfl

end Machine

end ScopedStore.Script
