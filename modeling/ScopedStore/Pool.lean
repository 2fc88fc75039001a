/-!
# Shared slots

A pool of mutable slots and the references to them. Two holders of one reference see each
other's changes; a fresh slot differs from every earlier one, whatever the two contain.
-/

namespace ScopedStore

/-- A reference to one slot of a pool; references are equal when they name the same slot. -/
structure Ref (α : Type) where
  slot : Nat

namespace Ref

variable {α : Type}

/-- References to the same slot are the same reference. -/
@[ext] theorem ext {r s : Ref α} (h : r.slot = s.slot) : r = s := by
  cases r
  cases s
  simp_all

instance : DecidableEq (Ref α) := fun r s =>
  decidable_of_iff (r.slot = s.slot) ⟨ext, congrArg slot⟩

end Ref

structure Pool (α : Type) where
  contents : Array α := #[]

namespace Pool

variable {α : Type}

instance : Inhabited (Pool α) := ⟨{}⟩

def alloc (p : Pool α) (a : α) : Ref α × Pool α :=
  (⟨p.contents.size⟩, ⟨p.contents.push a⟩)

def get? (p : Pool α) (r : Ref α) : Option α :=
  p.contents[r.slot]?

def modify (p : Pool α) (r : Ref α) (f : α → α) : Pool α :=
  ⟨p.contents.modify r.slot f⟩

/-- A fresh slot contains what it was created with, and the others are as before. -/
theorem get?_alloc (p : Pool α) (a : α) (r : Ref α) :
    (p.alloc a).2.get? r = if r = (p.alloc a).1 then some a else p.get? r := by
  simp [alloc, get?, Array.getElem?_push, Ref.ext_iff]

/-- A change of a slot is a change of no other slot. -/
theorem get?_modify (p : Pool α) (r s : Ref α) (f : α → α) :
    (p.modify r f).get? s = if s = r then (p.get? s).map f else p.get? s := by
  simp [modify, get?, Array.getElem?_modify, Ref.ext_iff, eq_comm]

end Pool

end ScopedStore
