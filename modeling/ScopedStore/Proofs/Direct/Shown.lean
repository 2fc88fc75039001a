import ScopedStore.Proofs.Direct.Scopes
import ScopedStore.Store

/-!
# Bindings shown with their values

A list of bindings shows, through a store, a list of names with values. Looking up a name in what
is shown gives the value of the cell that the bindings give; and as long as no two bindings share
a cell, overwriting an entry of what is shown is writing to one cell.
-/

namespace ScopedStore

namespace Store

/-- The value of a cell; what it is past the end does not matter. -/
def held (s : Store) (a : Address) : Value :=
  s.cells[a.index]?.getD .void

/-- A cell that exists is read as it is held. -/
theorem read_eq_held {s : Store} {a : Address} (h : a.index < s.size) :
    s.read a = .ok (s.held a) := by
  have hcell : s.cells[a.index]? = some s.cells[a.index] := Array.getElem?_eq_getElem h
  rw [read_eq_ok_iff, held, hcell]
  rfl

/-- Further cells do not change the ones before them. -/
theorem held_append {s : Store} {a : Address} (h : a.index < s.size) (vs : Array Value) :
    (Store.mk (s.cells ++ vs)).held a = s.held a := by
  have hcell : (s.cells ++ vs)[a.index]? = s.cells[a.index]? :=
    Array.getElem?_append_left h
  simp only [held, hcell]

theorem held_push {s : Store} {a : Address} (h : a.index < s.size) (v : Value) :
    (Store.mk (s.cells.push v)).held a = s.held a := by
  rw [Array.push_eq_append]
  exact held_append h #[v]

theorem held_push_self (s : Store) (v : Value) :
    (Store.mk (s.cells.push v)).held ⟨s.size⟩ = v := by
  simp [held, size]

/-- Cells allocated for a list of values hold that list. -/
theorem map_held_append (s : Store) (vs : List Value) :
    ((List.range' s.size vs.length).map Address.mk).map
      (Store.mk (s.cells ++ vs.toArray)).held = vs := by
  -- The new cells begin where the old ones end, so position by position they are the values.
  apply List.ext_getElem?
  intro i
  by_cases hi : i < vs.length
  · simp [held, size, hi]
  · simp [hi]

/-- A cell holds what was written to it. -/
theorem held_write_self {s : Store} {a : Address} (h : a.index < s.size) (v : Value) :
    (s.write a v).value.held a = v := by
  have hcell : (s.cells.set a.index v h)[a.index]? = some v := Array.getElem?_set_self h
  rw [write_of_lt h, Traced.value_pure, held, hcell]
  rfl

/-- A write to another cell does not change what this one holds. -/
theorem held_write_of_ne {a b : Address} (h : b ≠ a) (s : Store) (v : Value) :
    (s.write a v).value.held b = s.held b := by
  have hindex : a.index ≠ b.index := by
    intro he
    apply h
    cases a
    cases b
    exact congrArg Address.mk he.symm
  by_cases hlt : a.index < s.size
  · have hcell : (s.cells.set a.index v hlt)[b.index]? = s.cells[b.index]? :=
      Array.getElem?_set_ne hlt hindex
    rw [write_of_lt hlt, Traced.value_pure, held, held, hcell]
  · rw [(write_of_size_le (Nat.le_of_not_lt hlt) v).1]

end Store

namespace Direct

/-! ## Bindings shown with their values -/

def shown (s : Store) (bindings : List (String × Address)) : Entries :=
  bindings.map fun b => (b.1, s.held b.2)

@[simp] theorem shown_nil (s : Store) : shown s [] = [] := rfl

@[simp] theorem shown_cons (s : Store) (name : String) (a : Address)
    (bindings : List (String × Address)) :
    shown s ((name, a) :: bindings) = (name, s.held a) :: shown s bindings := rfl

/-- What is shown depends only on the cells that are bound. -/
theorem shown_congr {s t : Store} {bindings : List (String × Address)}
    (h : ∀ a ∈ bindings.map Prod.snd, t.held a = s.held a) : shown t bindings = shown s bindings := by
  apply List.map_congr_left
  intro b hb
  rw [h b.2 (List.mem_map_of_mem hb)]

theorem map_fst_shown (s : Store) (bindings : List (String × Address)) :
    (shown s bindings).map Prod.fst = bindings.map Prod.fst := by
  simp [shown]

/-- Looking up a name in what is shown is looking up its address and showing the cell. -/
theorem lookup_shown (s : Store) (name : String) (bindings : List (String × Address)) :
    (shown s bindings).lookup name = (bindings.lookup name).map s.held := by
  induction bindings with
  | nil => rfl
  | cons b rest ih =>
      rcases b with ⟨other, a⟩
      by_cases hn : name = other
      · simp [hn]
      · have hne : (name == other) = false := by simpa using hn
        simp [List.lookup_cons, hne, ih]

/-- An address found for a name is among those bound. -/
theorem mem_of_lookup {name : String} {a : Address} {bindings : List (String × Address)}
    (h : bindings.lookup name = some a) : a ∈ bindings.map Prod.snd := by
  induction bindings with
  | nil => simp at h
  | cons b rest ih =>
      rcases b with ⟨other, c⟩
      by_cases hn : name = other
      · have hc : c = a := by simpa [List.lookup_cons, hn] using h
        simp [hc]
      · have hne : (name == other) = false := by simpa using hn
        have hrest : rest.lookup name = some a := by simpa [List.lookup_cons, hne] using h
        exact List.mem_cons_of_mem _ (ih hrest)

/-- A frame that pairs names with fresh cells for values shows the names paired with the values. -/
theorem shown_zip_append (s : Store) (names : List String) (vs : List Value) :
    shown ⟨s.cells ++ vs.toArray⟩
      (names.zip ((List.range' s.size vs.length).map Address.mk)) = names.zip vs := by
  have hmap : ∀ addresses : List Address,
      shown ⟨s.cells ++ vs.toArray⟩ (names.zip addresses) =
        names.zip (addresses.map (Store.mk (s.cells ++ vs.toArray)).held) := by
    intro addresses
    rw [List.zip_map_right]
    rfl
  rw [hmap, Store.map_held_append]

/-- There is nothing to overwrite for a name without a binding. -/
theorem overwrite_shown_of_none {name : String} {bindings : List (String × Address)}
    (h : bindings.lookup name = none) (s : Store) (v : Value) :
    overwrite name v (shown s bindings) = none := by
  induction bindings with
  | nil => rfl
  | cons b rest ih =>
      rcases b with ⟨other, c⟩
      by_cases hn : other = name
      · simp [hn] at h
      · have hne : (name == other) = false := by simpa using Ne.symm hn
        have hrest : rest.lookup name = none := by simpa [List.lookup_cons, hne] using h
        simp [overwrite, hn, ih hrest]

/-- Overwriting an entry shows the write to its cell, since no other binding has that cell. -/
theorem overwrite_shown_of_some {name : String} {a : Address}
    {bindings : List (String × Address)} {s : Store} (h : bindings.lookup name = some a)
    (hdistinct : (bindings.map Prod.snd).Nodup) (hlt : a.index < s.size) (v : Value) :
    overwrite name v (shown s bindings) = some (shown (s.write a v).value bindings) := by
  induction bindings with
  | nil => simp at h
  | cons b rest ih =>
      rcases b with ⟨other, c⟩
      rcases List.nodup_cons.1 hdistinct with ⟨hfirst, hrest⟩
      by_cases hn : other = name
      · have hc : c = a := by simpa [List.lookup_cons, hn] using h
        subst hc
        -- The entries behind the one that is overwritten have other cells.
        have hsame : shown (s.write c v).value rest = shown s rest := by
          apply shown_congr
          intro d hd
          apply Store.held_write_of_ne
          rintro rfl
          exact hfirst hd
        simp [overwrite, hn, hsame, Store.held_write_self hlt]
      · have hne : (name == other) = false := by simpa using Ne.symm hn
        have hlater : rest.lookup name = some a := by simpa [List.lookup_cons, hne] using h
        -- The entry that is passed over keeps its value, since its cell is not the one written.
        have hca : c ≠ a := by
          rintro rfl
          exact hfirst (mem_of_lookup hlater)
        simp [overwrite, hn, ih hlater hrest, Store.held_write_of_ne hca]

end Direct

end ScopedStore
