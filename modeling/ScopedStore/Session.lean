import ScopedStore.Store
import ScopedStore.World

/-!
# Sessions

One store and one global frame, which an evaluator threads through its work. A session answers
only for environments rooted in its own global frame: the addresses of any other would name
cells of another store. An operation that fails leaves the store and the world as they were.
-/

namespace ScopedStore

structure Session where
  store : Store := {}
  root : Ref Globals

namespace Session

def create (w : World) (capacities : Capacities := {}) : Traced (Session × World) := do
  Traced.emit (.sessionCreated capacities)
  let (root, w) := w.newRoot
  pure ({ root }, w)

def globalEnv (s : Session) : Env :=
  .ofRoot s.root

def owns (s : Session) (e : Env) : Bool :=
  e.root = s.root

/-- Adds the newest global binding; the address need not exist in the store. -/
def bind (s : Session) (w : World) (name : String) (a : Address) : Traced World :=
  w.bind s.root name a

def define (s : Session) (w : World) (name : String) (v : Value) :
    Traced (Address × Session × World) := do
  let (address, store) ← s.store.alloc v
  let s := { s with store }
  let w ← s.bind w name address
  pure (address, s, w)

/-- Defines the names `stem0`, `stem1`, … as the integers from zero, `n` of them in all. -/
def defineMany (s : Session) (w : World) (stem : String) (n : Nat) :
    Traced (Option Address × Session × World) :=
  Traced.iterate n
    (fun i (_, s, w) => do
      let (address, s, w) ← s.define w (stem ++ toString i) (.int (Int64.ofNat i))
      pure (some address, s, w))
    (none, s, w)

/-- Allocates one cell for each value and binds the cells to the names in a frame on top of `e`. -/
def enter (s : Session) (w : World) (e : Env) (names : List String) (values : List Value) :
    Traced (Except Fault Env × Session × World) :=
  if ¬ s.owns e then
    pure (.error .foreign, s, w)
  else if names.length ≠ values.length then
    pure (.error (.arity names.length values.length), s, w)
  else do
    let (addresses, store) ← s.store.allocAll values
    let (entered, w) := w.nest names addresses e
    pure (entered, { s with store }, w)

def lookup (s : Session) (w : World) (e : Env) (name : String) : Traced (Except Fault Value) :=
  if s.owns e then do
    match ← w.resolve e name with
    | .ok address => pure (s.store.read address)
    | .error fault => pure (.error fault)
  else
    pure (.error .foreign)

/-- Overwrites the value that a name has in an environment. A write to a missing cell is
dropped, as it is by `Store.write`. -/
def assign (s : Session) (w : World) (e : Env) (name : String) (v : Value) :
    Traced (Except Fault Unit × Session) :=
  if s.owns e then do
    match ← w.resolve e name with
    | .ok address =>
      let store ← s.store.write address v
      pure (.ok (), { s with store })
    | .error fault => pure (.error fault, s)
  else
    pure (.error .foreign, s)

/-! ## Ownership -/

@[simp] theorem owns_iff {s : Session} {e : Env} : s.owns e = true ↔ e.root = s.root := by
  simp [owns]

@[simp] theorem owns_globalEnv (s : Session) : s.owns s.globalEnv = true := by
  simp [globalEnv]

/-- A definition appends the cell and binds its address. -/
@[simp] theorem value_define (s : Session) (w : World) (name : String) (v : Value) :
    (s.define w name v).value =
      (⟨s.store.size⟩, { s with store := ⟨s.store.cells.push v⟩ },
        (w.bind s.root name ⟨s.store.size⟩).value) := rfl

/-- The owner is checked first, and a failed call leaves the session and the world as they are. -/
theorem enter_of_not_owns {s : Session} {e : Env} (h : s.owns e = false) (w : World)
    (names : List String) (values : List Value) :
    s.enter w e names values = pure (.error .foreign, s, w) := by
  simp [enter, h]

/-- With a name too many or too few no cell is allocated. -/
theorem enter_of_length_ne {s : Session} {e : Env} (h : s.owns e = true) {names : List String}
    {values : List Value} (hl : names.length ≠ values.length) (w : World) :
    s.enter w e names values =
      pure (.error (.arity names.length values.length), s, w) := by
  simp [enter, h, hl]

theorem lookup_of_not_owns {s : Session} {e : Env} (h : s.owns e = false) (w : World)
    (name : String) : s.lookup w e name = pure (.error .foreign) := by
  simp [lookup, h]

theorem assign_of_not_owns {s : Session} {e : Env} (h : s.owns e = false) (w : World)
    (name : String) (v : Value) : s.assign w e name v = pure (.error .foreign, s) := by
  simp [assign, h]

/-! ## Calls on an environment of the session -/

/-- The chain that `enter` returns when it succeeds. -/
def entered (s : Session) (w : World) (e : Env) (names : List String) (values : List Value) :
    Env :=
  { e with
    frames :=
      ⟨w.frameCount, names.zip ((List.range' s.store.size values.length).map Address.mk)⟩
        :: e.frames }

/-- A successful call appends the values to the store and puts a frame on top of the chain. -/
theorem value_enter {s : Session} {e : Env} (h : s.owns e = true) {names : List String}
    {values : List Value} (hl : names.length = values.length) (w : World) :
    (s.enter w e names values).value =
      (.ok (s.entered w e names values), { s with store := ⟨s.store.cells ++ values.toArray⟩ },
        { w with frameCount := w.frameCount + 1 }) := by
  simp [enter, h, hl, World.nest, entered]

/-- A look-up reads the cell that the search finds. -/
theorem value_lookup {s : Session} {e : Env} (h : s.owns e = true) (w : World) (name : String) :
    (s.lookup w e name).value = (w.find e name).bind s.store.read := by
  unfold lookup
  rw [if_pos h, Traced.value_bind, World.value_resolve]
  cases w.find e name <;> rfl

/-- An assignment writes to the cell that the search finds. -/
theorem value_assign_of_ok {s : Session} {e : Env} (h : s.owns e = true) {w : World}
    {name : String} {a : Address} (ha : w.find e name = .ok a) (v : Value) :
    (s.assign w e name v).value = (.ok (), { s with store := (s.store.write a v).value }) := by
  unfold assign
  rw [if_pos h, Traced.value_bind, World.value_resolve, ha]
  rfl

/-- If the search finds nothing, nothing is written. -/
theorem value_assign_of_error {s : Session} {e : Env} (h : s.owns e = true) {w : World}
    {name : String} {f : Fault} (hf : w.find e name = .error f) (v : Value) :
    (s.assign w e name v).value = (.error f, s) := by
  unfold assign
  rw [if_pos h, Traced.value_bind, World.value_resolve, hf]
  rfl

end Session

end ScopedStore
