import ScopedStore.Proofs.Handles.Origins
import ScopedStore.Proofs.Lookup

/-!
# Slots and creations

Every slot belongs to one creation: a call that makes a handle takes a slot which no other call has
taken, whatever the slots contain. `Tracks` says which slot that is for each creation, and that a
handle refers to the slot of the creation it descends from. Each call keeps this for the same slots,
and one that makes a handle for one slot more.
-/

namespace ScopedStore.Handles

variable {α : Type}

def count (s : Handles α) : Nat :=
  s.slots.contents.size

/-- The slots of creations, and the handles and contents that go with them. -/
structure Tracks (calls : List (Call α)) (birth : Nat → Nat) (s : Handles α) : Prop where
  past : ∀ i < s.count, birth i < calls.length
  distinct : ∀ i < s.count, ∀ j < s.count, birth i = birth j → i = j
  held : ∀ (x : String) (r : Ref α), s.held[x]? = some r → r.slot < s.count
  origin : ∀ x : String, originOf calls x = s.held[x]?.map fun r => birth r.slot
  contents : ∀ i < s.count, contentsOf calls (birth i) = s.slots.contents[i]?

variable {calls : List (Call α)} {birth : Nat → Nat} {s : Handles α} {x y into : String} {r : Ref α}

namespace Tracks

theorem empty : Tracks ([] : List (Call α)) birth {} where
  past := by
    intro i hi
    simp [count] at hi
  distinct := by
    intro i hi
    simp [count] at hi
  held := by
    intro x r hr
    simp at hr
  origin := by
    intro x
    simp [originOf]
  contents := by
    intro i hi
    simp [count] at hi

/-- A handle descends from the creation of its slot. -/
theorem origin_of_held (h : Tracks calls birth s) (hr : s.held[x]? = some r) :
    originOf calls x = some (birth r.slot) := by
  simp [h.origin x, hr]

/-- What descends from no creation is no handle. -/
theorem origin_of_missing (h : Tracks calls birth s) (hx : s.held[x]? = none) :
    originOf calls x = none := by
  simp [h.origin x, hx]

/-! ## What each call keeps -/

/-- A call that changes nothing, and of which nothing is told. -/
theorem still (h : Tracks calls birth s) {call : Call α}
    (horigin : ∀ x, originOf (call :: calls) x = originOf calls x)
    (hcontents : ∀ o, contentsOf (call :: calls) o = contentsOf calls o) :
    Tracks (call :: calls) birth s where
  past := fun i hi => Nat.lt_succ_of_lt (h.past i hi)
  distinct := h.distinct
  held := h.held
  origin := fun x => (horigin x).trans (h.origin x)
  contents := fun i hi => (hcontents _).trans (h.contents i hi)

/-- A fresh slot belongs to the call that made it. -/
theorem create (h : Tracks calls birth s) (into : String) (a : α) :
    Tracks (.create into a :: calls) (fun i => if i = s.count then calls.length else birth i)
      (s.next (.create into a)) := by
  have hcount : (s.next (.create into a)).count = s.count + 1 := Array.size_push a
  have hheld : ∀ y : String, (s.next (.create into a)).held[y]? =
      if y = into then some ⟨s.count⟩ else s.held[y]? :=
    fun y => Lookup.getElem?_insert s.held into y ⟨s.count⟩
  have hold : ∀ i, i < s.count + 1 → i ≠ s.count → i < s.count := by omega
  refine ⟨?_, ?_, ?_, ?_, ?_⟩
  · intro i hi
    rw [hcount] at hi
    simp only [List.length_cons]
    split
    · exact Nat.lt_succ_self _
    · rename_i hne
      exact Nat.lt_succ_of_lt (h.past i (hold i hi hne))
  · intro i hi j hj hbirth
    rw [hcount] at hi hj
    -- The new slot was born after all the others.
    split at hbirth <;> split at hbirth
    · simp_all
    · rename_i hne
      exact absurd hbirth (Nat.ne_of_gt (h.past j (hold j hj hne)))
    · rename_i hne _
      exact absurd hbirth (Nat.ne_of_lt (h.past i (hold i hi hne)))
    · rename_i hne hne'
      exact h.distinct i (hold i hi hne) j (hold j hj hne') hbirth
  · intro y r hr
    rw [hheld] at hr
    rw [hcount]
    split at hr
    · cases hr
      exact Nat.lt_succ_self _
    · exact Nat.lt_succ_of_lt (h.held y r hr)
  · intro y
    rw [hheld]
    unfold originOf
    split
    · simp
    · rw [h.origin y]
      cases hr : s.held[y]? with
      | none => rfl
      | some r => simp [Nat.ne_of_lt (h.held y r hr)]
  · intro i hi
    rw [hcount] at hi
    change _ = (s.slots.contents.push a)[i]?
    rw [Array.getElem?_push]
    unfold contentsOf
    by_cases hnew : i = s.count
    · simp [hnew, count]
    · have hlt := hold i hi hnew
      have hpast := Nat.ne_of_lt (h.past i hlt)
      have hcell : i ≠ s.slots.contents.size := hnew
      simpa [hnew, hpast, hcell] using h.contents i hlt

/-- A shared handle refers to the slot of the handle that it was shared from. -/
theorem share (h : Tracks calls birth s) (hr : s.held[x]? = some r) (into : String) :
    Tracks (.share x into :: calls) birth (s.next (.share x into)) := by
  have hnext : s.next (.share x into) = { s with held := s.held.insert into r } := by
    simp [next, hr]
  have hget : ∀ y : String, (s.held.insert into r)[y]? = if y = into then some r else s.held[y]? :=
    fun y => Lookup.getElem?_insert s.held into y r
  rw [hnext]
  refine ⟨fun i hi => Nat.lt_succ_of_lt (h.past i hi), h.distinct, ?_, ?_, h.contents⟩
  · intro y t ht
    change (s.held.insert into r)[y]? = some t at ht
    rw [hget] at ht
    split at ht
    · cases ht
      exact h.held x r hr
    · exact h.held y t ht
  · intro y
    change originOf _ y = (s.held.insert into r)[y]?.map _
    rw [hget]
    unfold originOf
    split
    · simp [h.origin_of_held hr]
    · exact h.origin y

/-- A write changes the contents of one creation. -/
theorem write (h : Tracks calls birth s) (hr : s.held[x]? = some r) (f : α → α) :
    Tracks (.write x f :: calls) birth (s.next (.write x f)) := by
  have hnext : s.next (.write x f) = { s with slots := s.slots.modify r f } := by
    simp [next, hr]
  have hcount : count { s with slots := s.slots.modify r f } = s.count := Array.size_modify
  rw [hnext]
  refine ⟨?_, ?_, ?_, h.origin, ?_⟩
  · intro i hi
    exact Nat.lt_succ_of_lt (h.past i (hcount ▸ hi))
  · intro i hi j hj
    exact h.distinct i (hcount ▸ hi) j (hcount ▸ hj)
  · intro y t ht
    exact hcount ▸ h.held y t ht
  · intro i hi
    have hlt : i < s.count := hcount ▸ hi
    change _ = (s.slots.contents.modify r.slot f)[i]?
    rw [Array.getElem?_modify]
    unfold contentsOf
    rw [h.origin_of_held hr, h.contents i hlt]
    -- Another slot has another birth, so that exactly the slot of the handle changes.
    by_cases hslot : r.slot = i
    · simp [hslot]
    · have hbirth : birth r.slot ≠ birth i :=
        fun he => hslot (h.distinct r.slot (h.held x r hr) i hlt he)
      simp [hslot, hbirth]

theorem drop (h : Tracks calls birth s) (x : String) :
    Tracks (.drop x :: calls) birth (s.next (.drop x)) where
  past := fun i hi => Nat.lt_succ_of_lt (h.past i hi)
  distinct := h.distinct
  held := fun y r hr => h.held y r (Lookup.getElem?_of_erase hr)
  origin := by
    intro y
    change originOf _ y = (s.held.erase x)[y]?.map _
    rw [Lookup.getElem?_erase]
    unfold originOf
    split
    · rfl
    · exact h.origin y
  contents := h.contents

/-- Every call keeps track, at most with one slot more. -/
theorem next (h : Tracks calls birth s) (call : Call α) :
    ∃ birth, Tracks (call :: calls) birth (s.next call) := by
  cases call with
  | create into a => exact ⟨_, h.create into a⟩
  | share x into =>
      cases hr : s.held[x]? with
      | some r => exact ⟨birth, h.share hr into⟩
      | none =>
          -- What is shared is not there, so `into` keeps the origin that it had.
          have hsame : s.next (.share x into) = s := by simp [Handles.next, hr]
          refine ⟨birth, ?_⟩
          rw [hsame]
          refine h.still (fun y => ?_) fun _ => rfl
          simp [originOf, h.origin_of_missing hr]
  | write x f =>
      cases hr : s.held[x]? with
      | some r => exact ⟨birth, h.write hr f⟩
      | none =>
          have hsame : s.next (.write x f) = s := by simp [Handles.next, hr]
          refine ⟨birth, ?_⟩
          rw [hsame]
          refine h.still (fun _ => rfl) fun o => ?_
          simp [contentsOf, h.origin_of_missing hr]
  | read x => exact ⟨birth, h.still (fun _ => rfl) fun _ => rfl⟩
  | same x y => exact ⟨birth, h.still (fun _ => rfl) fun _ => rfl⟩
  | drop x => exact ⟨birth, h.drop x⟩

end Tracks

/-- After any calls, every slot has its creation. -/
theorem exists_tracks (calls : List (Call α)) : ∃ birth, Tracks calls birth (after calls) := by
  induction calls with
  | nil => exact ⟨id, .empty⟩
  | cons call calls ih =>
      rcases ih with ⟨birth, h⟩
      exact h.next call

end ScopedStore.Handles
