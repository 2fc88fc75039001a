import ScopedStore.Traced
import ScopedStore.Value

/-!
# The store

A growable table of mutable cells. A store only grows: `alloc` appends a cell, and its address
names that cell for as long as the store lives. Reading past the end is a fault; writing past
the end is dropped and only reported as an event.
-/

namespace ScopedStore

structure Store where
  cells : Array Value := #[]
  deriving DecidableEq

namespace Store

instance : Inhabited Store := ⟨{}⟩

def size (s : Store) : Nat :=
  s.cells.size

def isEmpty (s : Store) : Bool :=
  s.cells.isEmpty

/-- Appends a cell that holds `v`; its address is the size of the store before. -/
def alloc (s : Store) (v : Value) : Traced (Address × Store) :=
  let address : Address := ⟨s.size⟩
  do
    Traced.emit (.cellAllocated address (address.index + 1))
    pure (address, ⟨s.cells.push v⟩)

def allocAll (s : Store) : List Value → Traced (List Address × Store)
  | [] => pure ([], s)
  | v :: vs => do
    let (address, s) ← s.alloc v
    let (rest, s) ← allocAll s vs
    pure (address :: rest, s)

def allocMany (s : Store) (v : Value) (n : Nat) : Traced (Option Address × Store) :=
  Traced.iterate n
    (fun _ (_, s) => do
      let (address, s) ← s.alloc v
      pure (some address, s))
    (none, s)

def read (s : Store) (a : Address) : Except Fault Value :=
  match s.cells[a.index]? with
  | some v => .ok v
  | none => .error (.illegalAddress a.toInt64)

/-- Overwrites a cell. Past the end the store stays as it is and the write is reported. -/
def write (s : Store) (a : Address) (v : Value) : Traced Store :=
  if h : a.index < s.cells.size then
    pure ⟨s.cells.set a.index v⟩
  else do
    Traced.emit (.writeIgnored a s.size)
    pure s

/-- The highest of the first `n` addresses whose cell holds `v`. -/
def lastBelow (s : Store) (v : Value) : Nat → Option Address
  | 0 => none
  | n + 1 => if s.cells[n]? = some v then some ⟨n⟩ else lastBelow s v n

/-- The newest cell that holds `v` now. -/
def lastAddressOf? (s : Store) (v : Value) : Option Address :=
  s.lastBelow v s.size

/-! ## Each operation through the cells -/

@[simp] theorem value_alloc (s : Store) (v : Value) :
    (s.alloc v).value = (⟨s.size⟩, ⟨s.cells.push v⟩) := rfl

@[simp] theorem events_alloc (s : Store) (v : Value) :
    (s.alloc v).events = #[.cellAllocated ⟨s.size⟩ (s.size + 1)] := rfl

/-- New cells get consecutive addresses and stand behind the old ones. -/
@[simp] theorem value_allocAll (s : Store) (vs : List Value) :
    (s.allocAll vs).value =
      ((List.range' s.size vs.length).map Address.mk, ⟨s.cells ++ vs.toArray⟩) := by
  induction vs generalizing s with
  | nil => simp [allocAll]
  | cons v vs ih => simp [allocAll, ih, size, List.range'_succ]

/-- What can be read is what the cells contain. -/
theorem read_eq_ok_iff {s : Store} {a : Address} {v : Value} :
    s.read a = .ok v ↔ s.cells[a.index]? = some v := by
  unfold read
  split <;> simp_all

/-- Past the end there is nothing to read, and the fault names the address. -/
theorem read_of_size_le {s : Store} {a : Address} (h : s.size ≤ a.index) :
    s.read a = .error (.illegalAddress a.toInt64) := by
  have : s.cells[a.index]? = none := by simpa [size] using h
  simp [read, this]

theorem write_of_lt {s : Store} {a : Address} (h : a.index < s.size) (v : Value) :
    s.write a v = pure ⟨s.cells.set a.index v h⟩ :=
  dif_pos h

/-- A write past the end is dropped, and a warning says so. -/
theorem write_of_size_le {s : Store} {a : Address} (h : s.size ≤ a.index) (v : Value) :
    (s.write a v).value = s ∧ (s.write a v).events = #[.writeIgnored a s.size] := by
  have hn : ¬ a.index < s.cells.size := Nat.not_lt.mpr h
  simp [write, hn]

/-- No write makes a store larger. -/
@[simp] theorem size_write (s : Store) (a : Address) (v : Value) :
    (s.write a v).value.size = s.size := by
  unfold write
  split <;> simp [size]

end Store

end ScopedStore
