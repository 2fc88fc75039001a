import ScopedStore.Proofs.Cells.LastWrite

/-!
# The newest cell with a value

A search for a value starts at the far end of a store, so it comes to the newest of the cells that
hold the value. `NewestBelow` says this of any part of a store that begins at address zero. The
answers follow the store through every update: a new cell is the answer for its value, an
overwritten cell is the answer for its new value unless there is a newer one, and a value whose
newest cell is overwritten falls back to the cell before it.
-/

namespace ScopedStore.Store

/-- Of the cells below `n`, the newest that holds `v` is the one at `a`. -/
structure NewestBelow (s : Store) (v : Value) (n : Nat) (a : Address) : Prop where
  below : a.index < n
  holds : s.read a = .ok v
  newest : ∀ b : Address, a.index < b.index → b.index < n → s.read b ≠ .ok v

/-- How the answers to reverse searches of a store hang together with its cells, and with the
answers after an update. -/
structure SearchesBack (s : Store) : Prop where
  found_iff : ∀ (v : Value) (a : Address),
    s.lastAddressOf? v = some a ↔ s.NewestBelow v s.size a
  missing_iff : ∀ v : Value, s.lastAddressOf? v = none ↔ ∀ a : Address, s.read a ≠ .ok v
  /-- Values with one answer are equal, in kind and in payload. -/
  exact : ∀ (v w : Value) (a : Address),
    s.lastAddressOf? v = some a → s.lastAddressOf? w = some a → v = w
  apart : ∀ (t : String) (a : Address),
    s.lastAddressOf? (.str t) = some a → s.lastAddressOf? (.symbol t) ≠ some a
  read : ∀ (v : Value) (a : Address), s.lastAddressOf? v = some a → s.read a = .ok v
  at_least : ∀ a : Address, a.index < s.size → ∃ v b,
    s.read a = .ok v ∧ s.lastAddressOf? v = some b ∧ a.index ≤ b.index
  alloc_self : ∀ w : Value, (s.alloc w).value.2.lastAddressOf? w = some ⟨s.size⟩
  alloc_other : ∀ v w : Value, v ≠ w →
    (s.alloc w).value.2.lastAddressOf? v = s.lastAddressOf? v
  write_self : ∀ (a : Address) (w : Value), a.index < s.size →
    (s.write a w).value.lastAddressOf? w =
      some ⟨(s.lastAddressOf? w).elim a.index fun b => max a.index b.index⟩
  write_kept : ∀ (a : Address) (v w : Value), a.index < s.size → v ≠ w →
    s.lastAddressOf? v ≠ some a → (s.write a w).value.lastAddressOf? v = s.lastAddressOf? v
  /-- A value that loses its newest cell has the one before it, if there is one. -/
  write_lost : ∀ (a : Address) (v w : Value), v ≠ w → s.lastAddressOf? v = some a →
    (∀ b, (s.write a w).value.lastAddressOf? v = some b ↔ s.NewestBelow v a.index b) ∧
      ((s.write a w).value.lastAddressOf? v = none ↔
        ∀ b : Address, b.index < a.index → s.read b ≠ .ok v)
  write_past : ∀ (a : Address) (v w : Value), s.size ≤ a.index →
    (s.write a w).value.lastAddressOf? v = s.lastAddressOf? v

variable {s t : Store} {v w : Value} {n : Nat} {a b : Address}

/-! ## The search -/

/-- A cell that is read exists. -/
theorem lt_of_read (h : s.read a = .ok v) : a.index < s.size :=
  (Array.getElem?_eq_some_iff.1 (read_eq_ok_iff.1 h)).1

/-- The scan finds the newest cell below its bound. -/
theorem lastBelow_eq_some_iff (s : Store) (v : Value) (n : Nat) :
    ∀ a : Address, s.lastBelow v n = some a ↔ s.NewestBelow v n a := by
  induction n with
  | zero =>
      intro a
      simpa [lastBelow] using fun h : s.NewestBelow v 0 a => Nat.not_lt_zero _ h.below
  | succ n ih =>
      intro a
      by_cases hcell : s.cells[n]? = some v
      · -- The cell at the far end holds the value, so the search ends with it.
        have hread : s.read ⟨n⟩ = .ok v := read_eq_ok_iff.2 hcell
        simp only [lastBelow, if_pos hcell, Option.some.injEq]
        constructor
        · rintro rfl
          exact ⟨Nat.lt_succ_self n, hread, fun b hab hb => absurd hb (Nat.not_lt.2 hab)⟩
        · intro h
          have hle : n ≤ a.index := Nat.not_lt.1 fun hlt =>
            h.newest ⟨n⟩ hlt (Nat.lt_succ_self n) hread
          exact Address.eq_of_index (Nat.le_antisymm hle (Nat.le_of_lt_succ h.below))
      · have hread : s.read ⟨n⟩ ≠ .ok v := fun h => hcell (read_eq_ok_iff.1 h)
        simp only [lastBelow, if_neg hcell, ih a]
        constructor
        · intro h
          refine ⟨Nat.lt_succ_of_lt h.below, h.holds, ?_⟩
          intro b hab hb
          rcases Nat.lt_succ_iff_lt_or_eq.1 hb with hlt | heq
          · exact h.newest b hab hlt
          · exact Address.eq_of_index (b := ⟨n⟩) heq ▸ hread
        · intro h
          have hne : a.index ≠ n := fun heq =>
            hread (Address.eq_of_index (b := ⟨n⟩) heq ▸ h.holds)
          exact ⟨Nat.lt_of_le_of_ne (Nat.le_of_lt_succ h.below) hne, h.holds,
            fun b hab hb => h.newest b hab (Nat.lt_succ_of_lt hb)⟩

/-- The scan finds nothing only where nothing is. -/
theorem lastBelow_eq_none_iff (s : Store) (v : Value) (n : Nat) :
    s.lastBelow v n = none ↔ ∀ a : Address, a.index < n → s.read a ≠ .ok v := by
  induction n with
  | zero => simp [lastBelow]
  | succ n ih =>
      by_cases hcell : s.cells[n]? = some v
      · -- The search ends with the cell at the far end, which holds the value.
        simp only [lastBelow, if_pos hcell, reduceCtorEq, false_iff]
        exact fun h => h ⟨n⟩ (Nat.lt_succ_self n) (read_eq_ok_iff.2 hcell)
      · simp only [lastBelow, if_neg hcell, ih]
        constructor
        · intro h a ha
          rcases Nat.lt_succ_iff_lt_or_eq.1 ha with hlt | heq
          · exact h a hlt
          · exact fun hread => hcell (heq ▸ read_eq_ok_iff.1 hread)
        · exact fun h a ha => h a (Nat.lt_succ_of_lt ha)

/-- Stores in which the same cells hold a value answer a search for it alike. -/
theorem lastBelow_congr (h : ∀ a : Address, a.index < n → (s.read a = .ok v ↔ t.read a = .ok v)) :
    s.lastBelow v n = t.lastBelow v n := by
  apply Option.ext
  intro a
  simp only [lastBelow_eq_some_iff]
  constructor
  · intro ha
    exact ⟨ha.below, (h a ha.below).1 ha.holds,
      fun b hab hb hread => ha.newest b hab hb ((h b hb).2 hread)⟩
  · intro ha
    exact ⟨ha.below, (h a ha.below).2 ha.holds,
      fun b hab hb hread => ha.newest b hab hb ((h b hb).1 hread)⟩

/-- Cells that do not hold the value can be left out at the far end of a search. -/
theorem lastBelow_of_le (hle : n ≤ s.size)
    (h : ∀ a : Address, n ≤ a.index → s.read a ≠ .ok v) : s.lastAddressOf? v = s.lastBelow v n := by
  apply Option.ext
  intro a
  simp only [lastAddressOf?, lastBelow_eq_some_iff]
  constructor
  · intro ha
    exact ⟨Nat.not_le.1 fun hna => h a hna ha.holds, ha.holds,
      fun b hab hb => ha.newest b hab (Nat.lt_of_lt_of_le hb hle)⟩
  · intro ha
    refine ⟨Nat.lt_of_lt_of_le ha.below hle, ha.holds, ?_⟩
    intro b hab _
    rcases Nat.lt_or_ge b.index n with hlt | hge
    · exact ha.newest b hab hlt
    · exact h b hge

/-- The search of a whole store finds the newest of all its cells. -/
theorem lastAddressOf?_eq_some_iff :
    s.lastAddressOf? v = some a ↔ s.NewestBelow v s.size a :=
  lastBelow_eq_some_iff s v s.size a

/-- The search of a whole store fails if no cell holds the value. -/
theorem lastAddressOf?_eq_none_iff :
    s.lastAddressOf? v = none ↔ ∀ a : Address, s.read a ≠ .ok v := by
  refine (lastBelow_eq_none_iff s v s.size).trans ⟨?_, fun h a _ => h a⟩
  intro h a hread
  exact h a (lt_of_read hread) hread

/-- A cell that holds a value is no newer than the one that a search for the value finds. -/
theorem exists_of_read (h : s.read a = .ok v) :
    ∃ b, s.lastAddressOf? v = some b ∧ a.index ≤ b.index := by
  cases hlast : s.lastAddressOf? v with
  | none => exact absurd h (lastAddressOf?_eq_none_iff.1 hlast a)
  | some b =>
      have hb := lastAddressOf?_eq_some_iff.1 hlast
      exact ⟨b, rfl, Nat.not_lt.1 fun hlt => hb.newest a hlt (lt_of_read h) h⟩

/-! ## The search after an update -/

theorem read_alloc (s : Store) (w : Value) (b : Address) :
    (s.alloc w).value.2.read b = if b.index = s.size then .ok w else s.read b := by
  have hcell : (s.alloc w).value.2.cells[b.index]? =
      if b.index = s.size then some w else s.cells[b.index]? := Array.getElem?_push
  by_cases hb : b.index = s.size
  · simpa only [if_pos hb] using read_eq_ok_iff.2 (hcell.trans (if_pos hb))
  · simpa only [if_neg hb] using read_congr (hcell.trans (if_neg hb))

/-- A new cell is the newest one for its value. -/
theorem lastAddressOf?_alloc_self (s : Store) (w : Value) :
    (s.alloc w).value.2.lastAddressOf? w = some ⟨s.size⟩ := by
  have hsize : (s.alloc w).value.2.size = s.size + 1 := Array.size_push w
  refine lastAddressOf?_eq_some_iff.2 ⟨?_, ?_, ?_⟩
  · exact hsize ▸ Nat.lt_succ_self s.size
  · simp only [read_alloc, if_true]
  · intro b hab hb
    have hlt : b.index < s.size + 1 := hsize ▸ hb
    exact absurd hab (Nat.not_lt.2 (Nat.le_of_lt_succ hlt))

/-- A new cell is no answer for other values. -/
theorem lastAddressOf?_alloc_of_ne (s : Store) (h : v ≠ w) :
    (s.alloc w).value.2.lastAddressOf? v = s.lastAddressOf? v := by
  have hsize : (s.alloc w).value.2.size = s.size + 1 := Array.size_push w
  calc
    (s.alloc w).value.2.lastAddressOf? v = (s.alloc w).value.2.lastBelow v s.size := by
      refine lastBelow_of_le (hsize ▸ Nat.le_succ s.size) ?_
      -- At the far end there is the new cell, with another value, and nothing behind it.
      intro a hle hread
      have hlt : a.index < s.size + 1 := hsize ▸ lt_of_read hread
      have hindex : a.index = s.size := Nat.le_antisymm (Nat.le_of_lt_succ hlt) hle
      simp only [read_alloc, if_pos hindex, Except.ok.injEq] at hread
      exact h hread.symm
    _ = s.lastAddressOf? v := by
      refine lastBelow_congr fun a hlt => ?_
      simp only [read_alloc, if_neg (Nat.ne_of_lt hlt)]

/-- An overwritten cell is the newest one for its value, unless a later cell holds it as well. -/
theorem lastAddressOf?_write_self (h : a.index < s.size) (w : Value) :
    (s.write a w).value.lastAddressOf? w =
      some ⟨(s.lastAddressOf? w).elim a.index fun b => max a.index b.index⟩ := by
  have hread : ∀ b : Address, (s.write a w).value.read b = if b = a then .ok w else s.read b := by
    intro b
    simpa [h] using s.read_write a b w
  have hself : (s.write a w).value.read a = .ok w := by simp [hread]
  cases hlast : s.lastAddressOf? w with
  | none =>
      have hnone := lastAddressOf?_eq_none_iff.1 hlast
      refine lastAddressOf?_eq_some_iff.2 ⟨?_, hself, ?_⟩
      · simpa using h
      · intro b hab _
        have hne : b ≠ a := fun heq => Nat.lt_irrefl _ (heq ▸ hab)
        simpa [hread, hne] using hnone b
  | some b =>
      have hb := lastAddressOf?_eq_some_iff.1 hlast
      have hnewer : ∀ c : Address, max a.index b.index < c.index →
          c.index < (s.write a w).value.size → (s.write a w).value.read c ≠ .ok w := by
        intro c hc hlt
        rcases Nat.max_lt.1 hc with ⟨hac, hbc⟩
        have hne : c ≠ a := fun heq => Nat.lt_irrefl _ (heq ▸ hac)
        simpa [hread, hne] using hb.newest c hbc (by simpa using hlt)
      refine lastAddressOf?_eq_some_iff.2 ⟨?_, ?_, hnewer⟩
      · simpa using Nat.max_lt.2 ⟨h, hb.below⟩
      · -- The larger of the two addresses is that of the written cell or of the former answer.
        rcases Nat.le_total a.index b.index with hle | hle
        · simp only [Option.elim_some, Nat.max_eq_right hle, hread]
          split
          · rfl
          · exact hb.holds
        · simpa only [Option.elim_some, Nat.max_eq_left hle] using hself

/-- A write of another value takes the cell away from the search and changes nothing else for it. -/
theorem read_write_of_ne (h : v ≠ w) (b : Address) :
    (s.write a w).value.read b = .ok v ↔ s.read b = .ok v ∧ (b = a → s.size ≤ a.index) := by
  by_cases hb : b = a ∧ a.index < s.size
  · simp [read_write, hb, h.symm]
  · have hpast : b = a → s.size ≤ a.index := fun heq => Nat.not_lt.1 fun hlt => hb ⟨heq, hlt⟩
    simpa only [read_write, if_neg hb] using (and_iff_left hpast).symm

/-- A write takes an answer away only from the value that it overwrites. -/
theorem lastAddressOf?_write_of_ne (h : v ≠ w) (hlast : s.lastAddressOf? v ≠ some a) :
    (s.write a w).value.lastAddressOf? v = s.lastAddressOf? v := by
  apply Option.ext
  intro b
  simp only [lastAddressOf?_eq_some_iff, size_write]
  constructor
  · intro hb
    have hheld : s.read b = .ok v := ((read_write_of_ne h b).1 hb.holds).1
    rcases exists_of_read hheld with ⟨c, hc, hbc⟩
    have hcell := lastAddressOf?_eq_some_iff.1 hc
    have hca : c ≠ a := fun heq => hlast (heq ▸ hc)
    -- The former answer is still there, so that no cell before it can be the answer now.
    have hkept : (s.write a w).value.read c = .ok v :=
      (read_write_of_ne h c).2 ⟨hcell.holds, fun heq => absurd heq hca⟩
    have hcb : c.index ≤ b.index := Nat.not_lt.1 fun hlt => hb.newest c hlt hcell.below hkept
    exact Address.eq_of_index (Nat.le_antisymm hbc hcb) ▸ hcell
  · intro hb
    have hba : b ≠ a := fun heq => hlast (heq ▸ lastAddressOf?_eq_some_iff.2 hb)
    exact ⟨hb.below, (read_write_of_ne h b).2 ⟨hb.holds, fun heq => absurd heq hba⟩,
      fun c hbc hc hread => hb.newest c hbc hc ((read_write_of_ne h c).1 hread).1⟩

/-- When the answer itself is overwritten, the search goes on below it. -/
theorem lastAddressOf?_write_of_eq (h : v ≠ w) (hlast : s.lastAddressOf? v = some a) :
    (s.write a w).value.lastAddressOf? v = s.lastBelow v a.index := by
  have ha := lastAddressOf?_eq_some_iff.1 hlast
  calc
    (s.write a w).value.lastAddressOf? v = (s.write a w).value.lastBelow v a.index := by
      refine lastBelow_of_le (by simpa using Nat.le_of_lt ha.below) ?_
      intro b hle hread
      rcases (read_write_of_ne h b).1 hread with ⟨hheld, hother⟩
      rcases Nat.lt_or_eq_of_le hle with hlt | heq
      · exact ha.newest b hlt (lt_of_read hheld) hheld
      · exact absurd ha.below (Nat.not_lt.2 (hother (Address.eq_of_index heq.symm)))
    _ = s.lastBelow v a.index := by
      refine lastBelow_congr fun b hlt => ?_
      have hba : b ≠ a := fun heq => Nat.lt_irrefl _ (heq ▸ hlt)
      simpa [hba] using read_write_of_ne (s := s) (a := a) h b

/-! ## The law -/

theorem searchesBack (s : Store) : s.SearchesBack where
  found_iff := fun _ _ => lastAddressOf?_eq_some_iff
  missing_iff := fun _ => lastAddressOf?_eq_none_iff
  exact := by
    intro v w a hv hw
    have hread := (lastAddressOf?_eq_some_iff.1 hv).holds
    exact Except.ok.inj (hread.symm.trans (lastAddressOf?_eq_some_iff.1 hw).holds)
  apart := by
    intro t a hstr hsymbol
    have hread := (lastAddressOf?_eq_some_iff.1 hstr).holds
    cases hread.symm.trans (lastAddressOf?_eq_some_iff.1 hsymbol).holds
  read := fun _ _ h => (lastAddressOf?_eq_some_iff.1 h).holds
  at_least := by
    intro a hlt
    have hread : s.read a = .ok s.cells[a.index] :=
      read_eq_ok_iff.2 (Array.getElem?_eq_getElem hlt)
    rcases exists_of_read hread with ⟨b, hb, hle⟩
    exact ⟨_, b, hread, hb, hle⟩
  alloc_self := s.lastAddressOf?_alloc_self
  alloc_other := fun _ _ => s.lastAddressOf?_alloc_of_ne
  write_self := fun _ w h => lastAddressOf?_write_self h w
  write_kept := fun _ _ _ _ => lastAddressOf?_write_of_ne
  write_lost := by
    intro a v w hne hlast
    have hwrite := lastAddressOf?_write_of_eq hne hlast
    exact ⟨fun b => hwrite ▸ lastBelow_eq_some_iff s v a.index b,
      hwrite ▸ lastBelow_eq_none_iff s v a.index⟩
  write_past := by
    intro a v w hle
    simp only [(write_of_size_le hle w).1]

/-- Every store answers reverse searches with the newest cell that holds the value, and goes on to
do so through every update. After a history of calls on an empty store, that is the highest address
that the value was written to last. -/
theorem reverse_search_finds_newest :
    (∀ s : Store, s.SearchesBack) ∧
      ∀ (calls : List Call) (v : Value) (a : Address),
        (({} : Store).run calls).2.lastAddressOf? v = some a ↔
          lastWritten a calls = some v ∧
            ∀ b : Address, a.index < b.index → lastWritten b calls ≠ some v := by
  refine ⟨searchesBack, ?_⟩
  intro calls v a
  have hread : ∀ b : Address,
      (({} : Store).run calls).2.read b = .ok v ↔ lastWritten b calls = some v := fun b => by
    simp only [read_eq_ok_iff, getElem?_run_empty]
  simp only [lastAddressOf?_eq_some_iff, ← hread, ne_eq]
  constructor
  · intro h
    exact ⟨h.holds, fun b hab hb => h.newest b hab (lt_of_read hb) hb⟩
  · rintro ⟨hholds, hnewest⟩
    exact ⟨lt_of_read hholds, hholds, fun b hab _ => hnewest b hab⟩

/-- The newest of two equal cells is overwritten, and the search falls back to the older one. -/
example : ((Store.mk #[.int 7, .str "a", .int 7]).write ⟨2⟩ (.symbol "a")).value.lastAddressOf?
    (.int 7) = some ⟨0⟩ := by decide

end ScopedStore.Store
