import ScopedStore.Value
import ScopedStore.Fault

/-!
# Scopes that hold their values directly

An interpreter with neither a store nor addresses. Its global scope is a list of names with
their values, newest first; a nested scope is such a list in the order of its parameters, with
the scope around it. Reading a name takes the first entry of that name, scopes being searched
from the inside out, and assignment overwrites that entry where it stands.

Nested scopes are known by number, in the order in which they were made, so that any number of
scopes can share the one around them. They are stored newest first, and the scope at the head
of a list has the length of the rest as its number.
-/

namespace ScopedStore.Direct

/-- What an evaluator asks for. A scope is given by the number of the successful `enter` that
made it, or by `none` for the global scope. -/
inductive Call where
  | define (name : String) (value : Value)
  | enter (scope : Option Nat) (names : List String) (values : List Value)
  | lookup (scope : Option Nat) (name : String)
  | assign (scope : Option Nat) (name : String) (value : Value)
  deriving DecidableEq

inductive Outcome where
  | defined
  /-- A new scope, given by the names in it and in every nested scope around it, outwards. -/
  | entered (names : List (List String))
  | value (v : Value)
  | assigned
  | fault (f : Fault)
  /-- The call names a scope that has not been made. -/
  | noScope
  deriving DecidableEq

abbrev Entries := List (String × Value)

def overwrite (name : String) (v : Value) : Entries → Option Entries
  | [] => none
  | (other, u) :: rest =>
    if other = name then some ((other, v) :: rest)
    else (overwrite name v rest).map ((other, u) :: ·)

/-- A nested scope and the number of the scope around it. -/
structure Scope where
  entries : Entries
  enclosing : Option Nat
  deriving DecidableEq

structure Scopes where
  globals : Entries := []
  nested : List Scope := []
  deriving DecidableEq

namespace Scopes

/-- The first value of a name from a scope outwards. -/
def read (globals : Entries) (name : String) : List Scope → Option Nat → Option Value
  | [], _ => globals.lookup name
  | scope :: older, start =>
    if start = some older.length then
      (scope.entries.lookup name).or (read globals name older scope.enclosing)
    else
      read globals name older start

/-- All scopes after the first entry of a name, from a scope outwards, was overwritten. -/
def write (globals : Entries) (name : String) (v : Value) :
    List Scope → Option Nat → Option Scopes
  | [], _ => (overwrite name v globals).map fun globals => ⟨globals, []⟩
  | scope :: older, start =>
    if start = some older.length then
      match overwrite name v scope.entries with
      | some entries => some ⟨globals, { scope with entries } :: older⟩
      | none =>
        (write globals name v older scope.enclosing).map fun s => ⟨s.globals, scope :: s.nested⟩
    else
      (write globals name v older start).map fun s => ⟨s.globals, scope :: s.nested⟩

def names : List Scope → Option Nat → List (List String)
  | [], _ => []
  | scope :: older, start =>
    if start = some older.length then scope.entries.map Prod.fst :: names older scope.enclosing
    else names older start

def has (s : Scopes) (scope : Option Nat) : Bool :=
  scope.all (· < s.nested.length)

def call (s : Scopes) : Call → Outcome × Scopes
  | .define name v => (.defined, { s with globals := (name, v) :: s.globals })
  | .enter scope params values =>
    if ¬ s.has scope then (.noScope, s)
    else if params.length ≠ values.length then
      (.fault (.arity params.length values.length), s)
    else
      let nested := ⟨params.zip values, scope⟩ :: s.nested
      (.entered (names nested (some s.nested.length)), { s with nested })
  | .lookup scope name =>
    if ¬ s.has scope then (.noScope, s)
    else
      match read s.globals name s.nested scope with
      | some v => (.value v, s)
      | none => (.fault (.unbound name), s)
  | .assign scope name v =>
    if ¬ s.has scope then (.noScope, s)
    else
      match write s.globals name v s.nested scope with
      | some s => (.assigned, s)
      | none => (.fault (.unbound name), s)

def run (s : Scopes) : List Call → List Outcome × Scopes
  | [] => ([], s)
  | c :: rest =>
    let (outcome, s) := s.call c
    let (outcomes, s) := s.run rest
    (outcome :: outcomes, s)

end Scopes

end ScopedStore.Direct
