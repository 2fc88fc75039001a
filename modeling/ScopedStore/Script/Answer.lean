import ScopedStore.Env
import ScopedStore.Store

/-!
# Answers to steps

What a step answers: the shape of its result, or the reason why it was refused.
-/

namespace ScopedStore.Script

inductive Answer where
  /-- The step has nothing to tell. -/
  | done
  | address (a : Address)
  /-- An address if there is one. -/
  | address? (a : Option Address)
  | value (v : Value)
  | flag (b : Bool)
  | int (n : Int64)
  | text (s : String)
  /-- The depth of an environment that was stored. -/
  | depth (n : Nat)
  /-- The number of things in a container after a change. -/
  | count (n : Nat)
  /-- The number of things in a container, and with it whether there is none. -/
  | size (n : Nat)
  /-- Whether an environment is global, and its depth. -/
  | kind (isGlobal : Bool) (depth : Nat)
  | store (s : Store)
  | globals (g : Globals)
  /-- An environment and what its global frame holds. -/
  | env (e : Env) (root : Globals)

inductive Refusal where
  /-- The operation failed. -/
  | fault (f : Fault)
  /-- A register that the step names holds nothing. -/
  | missing (id : String)
  /-- The environment is a global frame, which nothing encloses. -/
  | notNested
  deriving DecidableEq

end ScopedStore.Script
