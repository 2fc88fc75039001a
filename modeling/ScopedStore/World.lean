import ScopedStore.Env

/-!
# The world of frames

All global frames created so far, and how many nested frames there have been. Environments
refer into a world: their global frame is one of its slots. Creating a frame takes an identity
that no earlier frame has, and only `bind` changes a frame that exists.
-/

namespace ScopedStore

structure World where
  roots : Pool Globals := {}
  frameCount : Nat := 0

namespace World

instance : Inhabited World := ⟨{}⟩

def globals (w : World) (r : Ref Globals) : Globals :=
  (w.roots.get? r).getD {}

def newRoot (w : World) (g : Globals := {}) : Ref Globals × World :=
  let (r, roots) := w.roots.alloc g
  (r, { w with roots })

/-- Adds the newest binding of a global frame; every chain over the frame sees it. -/
def bind (w : World) (r : Ref Globals) (name : String) (a : Address) : Traced World := do
  Traced.emit (.nameBound name a ((w.globals r).binds name))
  pure { w with roots := w.roots.modify r (·.push name a) }

/-- Builds a frame on top of `e` that pairs names with addresses by position. -/
def nest (w : World) (names : List String) (addresses : List Address) (e : Env) :
    Except Fault Env × World :=
  if names.length = addresses.length then
    (.ok { e with frames := ⟨w.frameCount, names.zip addresses⟩ :: e.frames },
      { w with frameCount := w.frameCount + 1 })
  else
    (.error (.arity names.length addresses.length), w)

def nestMany (w : World) (names : List String) (addresses : List Address) (e : Env) :
    Nat → Except Fault Env × World
  | 0 => (.ok e, w)
  | n + 1 =>
    match w.nest names addresses e with
    | (.ok e, w) => w.nestMany names addresses e n
    | (.error fault, w) => (.error fault, w)

def find (w : World) (e : Env) (name : String) : Except Fault Address :=
  match e.find? name with
  | some a => .ok a
  | none => (w.globals e.root).find name

/-- Finds the address of a name and reports the search, whatever comes of it. -/
def resolve (w : World) (e : Env) (name : String) : Traced (Except Fault Address) := do
  Traced.emit (.resolving name)
  pure (w.find e name)

/-! ## What the operations do to the global frames -/

@[simp] theorem value_resolve (w : World) (e : Env) (name : String) :
    (w.resolve e name).value = w.find e name := rfl

@[simp] theorem events_resolve (w : World) (e : Env) (name : String) :
    (w.resolve e name).events = #[.resolving name] := rfl

/-- Building a frame changes no global frame. -/
@[simp] theorem roots_nest (w : World) (names : List String) (addresses : List Address) (e : Env) :
    (w.nest names addresses e).2.roots = w.roots := by
  unfold nest
  split <;> rfl

/-- Lists of unequal lengths make no frame. -/
theorem nest_of_length_ne {names : List String} {addresses : List Address}
    (h : names.length ≠ addresses.length) (w : World) (e : Env) :
    w.nest names addresses e = (.error (.arity names.length addresses.length), w) :=
  if_neg h

/-- A new global frame holds what it was created with, and the others what they held. -/
theorem globals_newRoot (w : World) (g : Globals) (r : Ref Globals) :
    (w.newRoot g).2.globals r = if r = (w.newRoot g).1 then g else w.globals r := by
  by_cases h : r = (w.roots.alloc g).1 <;> simp [newRoot, globals, Pool.get?_alloc, h]

/-- A binding is added to one global frame and to no other. -/
theorem globals_bind (w : World) (r s : Ref Globals) (name : String) (a : Address)
    (h : (w.roots.get? r).isSome) :
    (w.bind r name a).value.globals s =
      if s = r then (w.globals r).push name a else w.globals s := by
  obtain ⟨g, hg⟩ := Option.isSome_iff_exists.mp h
  by_cases hs : s = r
  · subst hs
    simp [bind, globals, Pool.get?_modify, hg]
  · simp [bind, globals, Pool.get?_modify, hs]

end World

end ScopedStore
