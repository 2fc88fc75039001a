import Std.Data.ExtTreeMap

/-!
# Looking into maps

How a look-up in a map with ordered keys sees an insertion, a removal and a change of one entry,
with equality of keys in place of comparison.
-/

namespace ScopedStore.Lookup

variable {κ α : Type} [Ord κ] [Std.TransOrd κ] [Std.LawfulEqOrd κ] [DecidableEq κ]

/-- An insertion is seen under its own key only. -/
theorem getElem?_insert (t : Std.ExtTreeMap κ α compare) (k l : κ) (a : α) :
    (t.insert k a)[l]? = if l = k then some a else t[l]? := by
  simp [Std.ExtTreeMap.getElem?_insert, @eq_comm _ l k]

/-- A removal is seen under its own key only. -/
theorem getElem?_erase (t : Std.ExtTreeMap κ α compare) (k l : κ) :
    (t.erase k)[l]? = if l = k then none else t[l]? := by
  simp [Std.ExtTreeMap.getElem?_erase, @eq_comm _ l k]

/-- An entry found after a removal was there before. -/
theorem getElem?_of_erase {t : Std.ExtTreeMap κ α compare} {k l : κ} {a : α}
    (h : (t.erase k)[l]? = some a) : t[l]? = some a := by
  rw [getElem?_erase] at h
  split at h
  · cases h
  · exact h

/-- Changing an entry that exists is inserting the changed entry. -/
theorem modify_eq_insert {t : Std.ExtTreeMap κ α compare} {k : κ} {a : α} (h : t[k]? = some a)
    (f : α → α) : t.modify k f = t.insert k (f a) := by
  apply Std.ExtTreeMap.ext_getElem?
  intro l
  rw [getElem?_insert, Std.ExtTreeMap.getElem?_modify]
  by_cases hl : l = k
  · subst hl
    simp [h]
  · simp [hl, Ne.symm hl]

/-- Inserting an entry that is there already changes nothing. -/
theorem insert_eq_self {t : Std.ExtTreeMap κ α compare} {k : κ} {a : α} (h : t[k]? = some a) :
    t.insert k a = t := by
  apply Std.ExtTreeMap.ext_getElem?
  intro l
  rw [getElem?_insert]
  by_cases hl : l = k
  · rw [if_pos hl, hl, h]
  · rw [if_neg hl]

/-- Insertions under different keys may be made in either order. -/
theorem insert_comm (t : Std.ExtTreeMap κ α compare) {k l : κ} (h : k ≠ l) (a b : α) :
    (t.insert k a).insert l b = (t.insert l b).insert k a := by
  apply Std.ExtTreeMap.ext_getElem?
  intro i
  simp only [getElem?_insert]
  -- Both orders answer the same for each of the two keys, and leave every other one alone.
  by_cases hk : i = k
  · have hl : ¬ i = l := fun hl => h (hk.symm.trans hl)
    rw [if_neg hl, if_pos hk, if_pos hk]
  · rw [if_neg hk, if_neg hk]

end ScopedStore.Lookup
