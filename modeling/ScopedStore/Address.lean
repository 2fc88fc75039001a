import ScopedStore.Fault

/-!
# Addresses

An address names one cell by its index. Indices are unbounded naturals; the two crossings
to the signed 64-bit integers of callers are `Address.ofRaw`, which refuses negative numbers,
and `Address.toInt64`, which clamps at the largest integer.
-/

namespace ScopedStore

/-- The key of one store cell. -/
structure Address where
  index : Nat
  deriving DecidableEq

namespace Address

instance : Inhabited Address := ⟨⟨0⟩⟩

instance : Ord Address := ⟨fun a b => compare a.index b.index⟩

/-- An address from an integer of the outside; a negative one can name no cell. -/
def ofRaw (raw : Int64) : Except Fault Address :=
  if raw.toInt < 0 then .error (.illegalAddress raw) else .ok ⟨raw.toInt.toNat⟩

/-- The integer that reports an address, at most the largest one there is. -/
def toInt64 (a : Address) : Int64 :=
  Int64.ofNat (min a.index Int64.maxValue.toNatClampNeg)

def display (a : Address) : String :=
  "@" ++ toString a.index

/-- A negative integer is no address, and the fault names it. -/
theorem ofRaw_of_neg {raw : Int64} (h : raw.toInt < 0) :
    ofRaw raw = .error (.illegalAddress raw) := by
  simp [ofRaw, h]

/-- Every other integer is the address of the cell with this index. -/
theorem ofRaw_of_nonneg {raw : Int64} (h : 0 ≤ raw.toInt) :
    ofRaw raw = .ok ⟨raw.toInt.toNat⟩ := by
  simp [ofRaw, Int.not_lt.mpr h]

@[simp] theorem compare_eq (a b : Address) : compare a b = compare a.index b.index := rfl

end Address

end ScopedStore
