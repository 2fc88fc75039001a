import Mathlib.Logic.Equiv.Basic
import ScopedStore.Env
import ScopedStore.Proofs.Cells.LastWrite

/-!
# Stores and environments at other addresses

What it means that a store holds the cells of another one at other addresses, and that a frame or an
environment has other addresses for the same names. The renaming of addresses is one function on all
of them, those not allocated yet included: the next cells of the two stores correspond to each
other. A store may have further cells that correspond to nothing.
-/

namespace ScopedStore

variable {ρ : Address → Address} {s t : Store}

/-! ## Stores -/

namespace Store

/-- The cells of `s` are found in `t` under their new addresses, and cells allocated from now on in
both stores correspond to each other. -/
structure Relocated (ρ : Address → Address) (s t : Store) : Prop where
  cells : ∀ a : Address, t.cells[(ρ a).index]? = s.cells[a.index]?
  fresh : ∀ k : Nat, ρ ⟨s.size + k⟩ = ⟨t.size + k⟩

namespace Relocated

/-- A cell exists in the one store exactly if the cell that corresponds to it exists in the other.
-/
theorem lt_iff (h : Relocated ρ s t) (a : Address) : (ρ a).index < t.size ↔ a.index < s.size := by
  have hnone : t.size ≤ (ρ a).index ↔ s.size ≤ a.index := by
    simp only [size, ← Array.getElem?_eq_none_iff, h.cells]
  simpa only [Nat.not_le] using not_congr hnone

/-- Cells allocated for the same values correspond to each other. -/
theorem append (h : Relocated ρ s t) (values : Array Value) :
    Relocated ρ ⟨s.cells ++ values⟩ ⟨t.cells ++ values⟩ where
  cells := by
    intro a
    rcases Nat.lt_or_ge a.index s.size with hlt | hle
    · have hlt' := (h.lt_iff a).2 hlt
      calc
        (t.cells ++ values)[(ρ a).index]? = t.cells[(ρ a).index]? :=
          Array.getElem?_append_left hlt'
        _ = s.cells[a.index]? := h.cells a
        _ = (s.cells ++ values)[a.index]? := (Array.getElem?_append_left hlt).symm
    · rcases Nat.exists_eq_add_of_le hle with ⟨k, hk⟩
      have ha : a = ⟨s.size + k⟩ := by
        cases a
        exact congrArg Address.mk hk
      have hnew : ∀ u : Store, (u.cells ++ values)[u.size + k]? = values[k]? := by
        intro u
        simp [Array.getElem?_append_right, Store.size]
      simpa only [ha, h.fresh] using (hnew t).trans (hnew s).symm
  fresh := by
    intro k
    simpa [Store.size, Nat.add_assoc] using h.fresh (values.size + k)

/-- Cells that are allocated next in both stores correspond to each other. -/
theorem push (h : Relocated ρ s t) (v : Value) :
    Relocated ρ ⟨s.cells.push v⟩ ⟨t.cells.push v⟩ := by
  simpa only [Array.push_eq_append] using h.append #[v]

/-- Writes to corresponding cells leave corresponding stores; that different cells have different
new addresses is needed here. -/
theorem write (h : Relocated ρ s t) (hinj : Function.Injective ρ) (a : Address) (v : Value) :
    Relocated ρ (s.write a v).value (t.write (ρ a) v).value where
  cells := by
    intro b
    simp only [getElem?_write, hinj.eq_iff, h.lt_iff, h.cells]
  fresh := by
    intro k
    simpa only [size_write] using h.fresh k

/-- The addresses of the next cells in the one store are renamed to those in the other. -/
theorem map_fresh (h : Relocated ρ s t) (n : Nat) :
    ((List.range' s.size n).map Address.mk).map ρ = (List.range' t.size n).map Address.mk := by
  simp only [List.range'_eq_map_range, List.map_map]
  apply List.map_congr_left
  intro k _
  exact h.fresh k

end Relocated

end Store

/-! ## One cell more, and another order of two cells -/

/-- Leaves one index free: the addresses from there on move up by one. -/
def Address.skip (free : Nat) (a : Address) : Address :=
  if a.index < free then a else ⟨a.index + 1⟩

namespace Address

variable {free : Nat} {a : Address}

theorem skip_of_lt (h : a.index < free) : a.skip free = a :=
  if_pos h

theorem skip_of_le (h : free ≤ a.index) : a.skip free = ⟨a.index + 1⟩ :=
  if_neg (Nat.not_lt.2 h)

/-- No two addresses are moved to the same place. -/
theorem skip_injective (free : Nat) : Function.Injective (skip free) := by
  rintro ⟨i⟩ ⟨j⟩ h
  have hindex : (if i < free then i else i + 1) = if j < free then j else j + 1 := by
    simpa only [skip, apply_ite index] using congrArg index h
  have hij : i = j := by split at hindex <;> split at hindex <;> omega
  exact congrArg mk hij

end Address

namespace Store

theorem relocated_refl (s : Store) : Relocated id s s :=
  ⟨fun _ => rfl, fun _ => rfl⟩

/-- A cell that no address corresponds to. -/
theorem relocated_skip (s : Store) (v : Value) :
    Relocated (Address.skip s.size) s ⟨s.cells.push v⟩ where
  cells := by
    intro a
    rcases Nat.lt_or_ge a.index s.size with hlt | hle
    · have hne : a.index ≠ s.cells.size := Nat.ne_of_lt hlt
      simp [Address.skip_of_lt hlt, Array.getElem?_push, hne]
    · have hle' : s.cells.size ≤ a.index := hle
      simp [Address.skip_of_le hle, hle']
  fresh := by
    intro k
    have hskip := Address.skip_of_le (a := ⟨s.size + k⟩) (Nat.le_add_right s.size k)
    simpa [size, Nat.add_right_comm] using hskip

/-- Two cells allocated in either order. -/
theorem relocated_swap (s : Store) (v₁ v₂ : Value) :
    Relocated (Equiv.swap ⟨s.size⟩ ⟨s.size + 1⟩) ⟨(s.cells.push v₁).push v₂⟩
      ⟨(s.cells.push v₂).push v₁⟩ where
  cells := by
    intro a
    by_cases hfirst : a = ⟨s.size⟩
    · simp only [hfirst, Equiv.swap_apply_left, Array.getElem?_push]
      simp [size]
    · by_cases hsecond : a = ⟨s.size + 1⟩
      · simp only [hsecond, Equiv.swap_apply_right, Array.getElem?_push]
        simp [size]
      · have hne₁ : a.index ≠ s.cells.size := fun h => hfirst (congrArg Address.mk h)
        have hne₂ : a.index ≠ s.cells.size + 1 := fun h => hsecond (congrArg Address.mk h)
        simp [Equiv.swap_apply_of_ne_of_ne hfirst hsecond, Array.getElem?_push, hne₁, hne₂]
  fresh := by
    intro k
    have hfirst : (⟨s.size + 2 + k⟩ : Address) ≠ ⟨s.size⟩ := by simp; omega
    have hsecond : (⟨s.size + 2 + k⟩ : Address) ≠ ⟨s.size + 1⟩ := by simp; omega
    simpa [size] using Equiv.swap_apply_of_ne_of_ne hfirst hsecond

end Store

/-! ## Bindings, frames and environments -/

def relocate (ρ : Address → Address) (bindings : List (String × Address)) :
    List (String × Address) :=
  bindings.map fun b => (b.1, ρ b.2)

def Frame.relocate (ρ : Address → Address) (f : Frame) : Frame :=
  { f with bindings := ScopedStore.relocate ρ f.bindings }

/-- An environment over a global frame, with other addresses in its nested frames; environments over
other global frames bind cells of other stores and stay as they are. -/
def Env.relocate (ρ : Address → Address) (root : Ref Globals) (e : Env) : Env :=
  if e.root = root then { e with frames := e.frames.map (Frame.relocate ρ) } else e

/-- A name has the address that corresponds to its old one. -/
theorem lookup_relocate (ρ : Address → Address) (name : String)
    (bindings : List (String × Address)) :
    (relocate ρ bindings).lookup name = (bindings.lookup name).map ρ := by
  induction bindings with
  | nil => rfl
  | cons b rest ih =>
      rcases b with ⟨other, a⟩
      by_cases hn : name = other
      · simp [relocate, hn]
      · have hne : (name == other) = false := by simpa using hn
        simpa [relocate, List.lookup_cons, hne] using ih

theorem relocate_zip (ρ : Address → Address) (names : List String) (addresses : List Address) :
    relocate ρ (names.zip addresses) = names.zip (addresses.map ρ) := by
  simp [relocate, List.zip_map_right, Prod.map]

/-- Bindings whose addresses stay in place are not changed. -/
theorem relocate_eq_self {bindings : List (String × Address)} (h : ∀ b ∈ bindings, ρ b.2 = b.2) :
    relocate ρ bindings = bindings := by
  calc
    relocate ρ bindings = bindings.map id :=
      List.map_congr_left fun b hb => congrArg (Prod.mk b.1) (h b hb)
    _ = bindings := List.map_id bindings

namespace Env

variable {root : Ref Globals} {e : Env}

@[simp] theorem root_relocate : (e.relocate ρ root).root = e.root := by
  unfold relocate
  split <;> rfl

@[simp] theorem depth_relocate : (e.relocate ρ root).depth = e.depth := by
  unfold relocate
  split <;> simp [depth]

theorem relocate_of_root_eq (h : e.root = root) :
    e.relocate ρ root = { e with frames := e.frames.map (Frame.relocate ρ) } :=
  if_pos h

/-- The nested frames bind a name to the address that corresponds to its old one. -/
theorem find?_relocate (h : e.root = root) (name : String) :
    (e.relocate ρ root).find? name = (e.find? name).map ρ := by
  simp only [find?, relocate_of_root_eq h]
  induction e.frames with
  | nil => rfl
  | cons f rest ih =>
      have hf : (f.relocate ρ).find? name = (f.find? name).map ρ :=
        lookup_relocate ρ name f.bindings
      cases hfirst : f.find? name <;> simp [hf, hfirst, ih]

/-- An environment is the same as before if the renaming keeps the addresses that it binds. -/
theorem relocate_eq_self
    (h : e.root = root → ∀ f ∈ e.frames, ∀ b ∈ f.bindings, ρ b.2 = b.2) :
    e.relocate ρ root = e := by
  by_cases hroot : e.root = root
  · have hframes : e.frames.map (Frame.relocate ρ) = e.frames := by
      calc
        e.frames.map (Frame.relocate ρ) = e.frames.map id := by
          apply List.map_congr_left
          intro f hf
          exact congrArg (Frame.mk f.id) (ScopedStore.relocate_eq_self (h hroot f hf))
        _ = e.frames := List.map_id e.frames
    simp only [relocate_of_root_eq hroot, hframes]
  · exact if_neg hroot

end Env

end ScopedStore
