import ScopedStore.Globals
import ScopedStore.Pool

/-!
# Environments

A chain of nested frames over a global frame. The bindings of a nested frame are fixed when it
is built; the global frame is shared by every chain over it and may grow. Frames are told
apart by when they were created, never by what they bind.
-/

namespace ScopedStore

/-- A nested frame. Its number tells it from every other nested frame. -/
structure Frame where
  id : Nat
  bindings : List (String × Address)
  deriving DecidableEq

namespace Frame

def names (f : Frame) : List String :=
  f.bindings.map Prod.fst

def addresses (f : Frame) : List Address :=
  f.bindings.map Prod.snd

def find? (f : Frame) (name : String) : Option Address :=
  f.bindings.lookup name

/-- The names and the addresses of a frame, put side by side again, are its bindings. -/
@[simp] theorem zip_names_addresses (f : Frame) : f.names.zip f.addresses = f.bindings := by
  simpa [names, addresses, List.unzip_eq_map] using List.zip_unzip f.bindings

end Frame

/-- The identity of a frame: a global frame by its slot, a nested one by its number. -/
inductive Site where
  | root (r : Ref Globals)
  | nested (id : Nat)
  deriving DecidableEq

/-- A chain of nested frames, innermost first, and the global frame under them. -/
structure Env where
  frames : List Frame
  root : Ref Globals
  deriving DecidableEq

namespace Env

def ofRoot (r : Ref Globals) : Env :=
  ⟨[], r⟩

def isGlobal (e : Env) : Bool :=
  e.frames.isEmpty

def depth (e : Env) : Nat :=
  e.frames.length

/-- The environment in which the innermost frame was created; a global frame has none. -/
def enclosing? (e : Env) : Option Env :=
  match e.frames with
  | [] => none
  | _ :: rest => some ⟨rest, e.root⟩

def global (e : Env) : Env :=
  ofRoot e.root

def site (e : Env) : Site :=
  match e.frames with
  | [] => .root e.root
  | f :: _ => .nested f.id

def sameFrame (e f : Env) : Bool :=
  e.site = f.site

def sameRoot (e f : Env) : Bool :=
  e.root = f.root

/-- What the nested frames alone bind a name to, the innermost that binds it deciding. -/
def find? (e : Env) (name : String) : Option Address :=
  e.frames.findSome? (·.find? name)

@[simp] theorem frames_ofRoot (r : Ref Globals) : (ofRoot r).frames = [] := rfl

@[simp] theorem root_ofRoot (r : Ref Globals) : (ofRoot r).root = r := rfl

@[simp] theorem depth_ofRoot (r : Ref Globals) : (ofRoot r).depth = 0 := rfl

@[simp] theorem find?_ofRoot (r : Ref Globals) (name : String) : (ofRoot r).find? name = none := rfl

@[simp] theorem find?_nil (r : Ref Globals) (name : String) : find? ⟨[], r⟩ name = none := rfl

/-- The innermost frame decides, and the rest of the chain only if it does not bind the name. -/
@[simp] theorem find?_cons (f : Frame) (fs : List Frame) (r : Ref Globals) (name : String) :
    find? ⟨f :: fs, r⟩ name = (f.find? name).or (find? ⟨fs, r⟩ name) := by
  cases h : f.find? name <;> simp [find?, h]

end Env

end ScopedStore
