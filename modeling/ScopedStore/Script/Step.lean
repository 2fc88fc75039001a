import ScopedStore.Capacities
import ScopedStore.Value

/-!
# Steps of a script

A script drives a machine of named registers. Each step names the registers it works on and, if
it makes an object, the register `into` which the object goes. Addresses come from the outside,
as signed integers that a step still has to check.
-/

namespace ScopedStore.Script

inductive Kind where
  | session
  | store
  | env
  | globals
  | cell
  deriving DecidableEq

inductive SessionStep where
  | create (into : String) (capacities : Capacities)
  | globalEnv (session into : String)
  | bind (session name : String) (address : Int64)
  | define (session name : String) (value : Value)
  | defineMany (session stem : String) (count : Nat)
  | enter (session env : String) (names : List String) (values : List Value) (into : String)
  | lookup (session env name : String)
  | assign (session env name : String) (value : Value)
  deriving DecidableEq

/-- Steps on stores, be they in a register of their own or the store of a session. -/
inductive StoreStep where
  | create (into : String)
  | copy (store into : String)
  | same (a b : String)
  | alloc (store : String) (value : Value)
  | allocMany (store : String) (value : Value) (count : Nat)
  | read (store : String) (address : Int64)
  | write (store : String) (address : Int64) (value : Value)
  | lastAddressOf (store : String) (value : Value)
  | size (store : String)
  | cells (store : String)
  deriving DecidableEq

inductive EnvStep where
  | create (into : String)
  | copy (env into : String)
  | nest (names : List String) (addresses : List Int64) (env : String) (count : Nat)
      (into : String)
  | resolve (env name : String)
  | findGlobal (env name : String)
  | kind (env : String)
  | sameFrame (a b : String)
  | sameRoot (a b : String)
  | bindGlobal (env name : String) (address : Int64)
  | global (env into : String)
  | enclosing (env into : String)
  | describe (env : String)
  deriving DecidableEq

/-- Steps on global frames that no environment is rooted in. -/
inductive GlobalsStep where
  | create (into : String)
  | copy (id into : String)
  | bind (id name : String) (address : Int64)
  | find (id name : String)
  | describe (id : String)
  | toEnv (id into : String)
  deriving DecidableEq

inductive CellStep where
  | create (into : String) (value : Int64)
  | share (cell into : String)
  | set (cell : String) (value : Int64)
  | get (cell : String)
  | same (a b : String)
  deriving DecidableEq

inductive Step where
  | session (step : SessionStep)
  | store (step : StoreStep)
  | env (step : EnvStep)
  | globals (step : GlobalsStep)
  | cell (step : CellStep)
  | drop (kind : Kind) (id : String)
  | inspect (kind : Kind) (id : String)
  deriving DecidableEq

end ScopedStore.Script
