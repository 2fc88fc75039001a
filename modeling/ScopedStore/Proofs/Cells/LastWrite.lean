import ScopedStore.Store

/-!
# The last write to a cell

What a history of calls on a store that was empty leaves in its cells. The history alone tells: a
cell belongs to the allocation of its number, and holds what was written to it last since then, or
what it was allocated for. Writes that come before the allocation count for nothing, neither at
their time nor later.
-/

namespace ScopedStore

/-- Addresses with one index are one address. -/
theorem Address.eq_of_index {a b : Address} (h : a.index = b.index) : a = b := by
  cases a
  cases b
  exact congrArg mk h

/-- An address that was given as an integer is reported as that integer. -/
theorem Address.toInt64_of_ofRaw {raw : Int64} {a : Address} (h : ofRaw raw = .ok a) :
    a.toInt64 = raw := by
  have hnonneg : 0 ≤ raw.toInt := by
    rcases Int.lt_or_le raw.toInt 0 with hneg | hnonneg
    · simp [ofRaw_of_neg hneg] at h
    · exact hnonneg
  have ha : a = ⟨raw.toInt.toNat⟩ := by
    simpa [ofRaw_of_nonneg hnonneg] using h.symm
  have hmax : raw.toInt.toNat ≤ Int64.maxValue.toNatClampNeg := by
    have hlt := raw.toInt_lt
    have hvalue : Int64.maxValue.toNatClampNeg = 2 ^ 63 - 1 := by decide
    omega
  calc
    a.toInt64 = Int64.ofNat raw.toInt.toNat := by
      simp only [ha, toInt64, Nat.min_eq_left hmax]
    _ = Int64.ofInt raw.toInt := by
      rw [← Int64.ofInt_eq_ofNat, Int.toNat_of_nonneg hnonneg]
    _ = raw := Int64.ofInt_toInt raw

namespace Store

/-! ## Histories of calls -/

inductive Call where
  | alloc (v : Value)
  | write (a : Address) (v : Value)
  | read (a : Address)
  | lastAddressOf (v : Value)
  deriving DecidableEq

inductive Reply where
  | allocated (a : Address)
  | written
  | read (result : Except Fault Value)
  | found (a : Option Address)

def call (s : Store) : Call → Reply × Store
  | .alloc v =>
    let (a, s) := (s.alloc v).value
    (.allocated a, s)
  | .write a v => (.written, (s.write a v).value)
  | .read a => (.read (s.read a), s)
  | .lastAddressOf v => (.found (s.lastAddressOf? v), s)

def run (s : Store) : List Call → List Reply × Store
  | [] => ([], s)
  | c :: rest =>
    let (reply, s) := s.call c
    let (replies, s) := s.run rest
    (reply :: replies, s)

def Reply.address? : Reply → Option Address
  | .allocated a => some a
  | _ => none

def Call.allocates? : Call → Option Value
  | .alloc v => some v
  | _ => none

/-- The value that a call writes to an address, be there a cell or not. -/
def Call.writes? (a : Address) : Call → Option Value
  | .write b v => if b = a then some v else none
  | _ => none

/-- The cell that a call changes when `size` cells are allocated. -/
def Call.target? (size : Nat) : Call → Option Address
  | .alloc _ => some ⟨size⟩
  | .write a _ => some a
  | _ => none

def allocated (calls : List Call) : List Value :=
  calls.filterMap Call.allocates?

/-- The allocation of a number, counted from zero: its value, and the calls that come after it. -/
def since : Nat → List Call → Option (Value × List Call)
  | _, [] => none
  | 0, .alloc v :: rest => some (v, rest)
  | n + 1, .alloc _ :: rest => since n rest
  | n, _ :: rest => since n rest

/-- The value written last to an address since its cell was allocated, or else the value that the
cell was allocated for. -/
def lastWritten (a : Address) (calls : List Call) : Option Value :=
  (since a.index calls).map fun (v, later) => (later.filterMap (Call.writes? a)).getLast?.getD v

/-- What a history of calls on an empty store comes to. -/
structure FollowsHistory (calls : List Call) : Prop where
  /-- Allocations return the addresses from zero on. -/
  addresses : (({} : Store).run calls).1.filterMap Reply.address? =
    (List.range (allocated calls).length).map Address.mk
  increasing : ((({} : Store).run calls).1.filterMap Reply.address?).Pairwise
    fun a b => a.index < b.index
  size : (({} : Store).run calls).2.size = (allocated calls).length
  read : ∀ a : Address, (({} : Store).run calls).2.read a =
    match lastWritten a calls with
    | some v => .ok v
    | none => .error (.illegalAddress a.toInt64)
  readable : ∀ a : Address, (lastWritten a calls).isSome ↔ a.index < (allocated calls).length
  /-- An address past the end is reported as the integer that it was given as. -/
  refused : ∀ (raw : Int64) (a : Address), Address.ofRaw raw = .ok a →
    (allocated calls).length ≤ a.index →
      (({} : Store).run calls).2.read a = .error (.illegalAddress raw)
  /-- A write before the allocation of its cell can be left out: the store is the same right after
  it, and at the end, and all other calls return the same. -/
  premature : ∀ (pre post : List Call) (a : Address) (v : Value),
    calls = pre ++ .write a v :: post → (allocated pre).length ≤ a.index →
      (({} : Store).run (pre ++ [.write a v])).2 = (({} : Store).run pre).2 ∧
        (({} : Store).run calls).2 = (({} : Store).run (pre ++ post)).2 ∧
        (({} : Store).run calls).1.eraseIdx pre.length = (({} : Store).run (pre ++ post)).1
  /-- A call changes no cell but its target. -/
  footprint : ∀ (pre post : List Call) (c : Call) (a : Address), calls = pre ++ c :: post →
    c.target? (allocated pre).length ≠ some a →
      (({} : Store).run (pre ++ [c])).2.read a = (({} : Store).run pre).2.read a

/-! ## Cells after one call -/

variable {s : Store}

/-- A write changes one cell, and only if the cell exists. -/
theorem getElem?_write (s : Store) (a b : Address) (v : Value) :
    (s.write a v).value.cells[b.index]? =
      if b = a ∧ a.index < s.size then some v else s.cells[b.index]? := by
  by_cases hlt : a.index < s.size
  · by_cases hb : b = a
    · subst hb
      have hself : (s.cells.set b.index v hlt)[b.index]? = some v := Array.getElem?_set_self hlt
      simpa [write_of_lt hlt, hlt] using hself
    · have hindex : a.index ≠ b.index := fun h => hb (Address.eq_of_index h.symm)
      simp [write_of_lt hlt, hb, Array.getElem?_set_ne hlt hindex]
  · simp [(write_of_size_le (Nat.not_lt.1 hlt) v).1, hlt]

@[simp] theorem size_empty : ({} : Store).size = 0 := rfl

/-- A read depends on one cell. -/
theorem read_congr {s t : Store} {a : Address} (h : s.cells[a.index]? = t.cells[a.index]?) :
    s.read a = t.read a := by
  simp only [read, h]

/-- A write to a cell is read back from it, and from no other. -/
theorem read_write (s : Store) (a b : Address) (v : Value) :
    (s.write a v).value.read b = if b = a ∧ a.index < s.size then .ok v else s.read b := by
  have hcell := s.getElem?_write a b v
  by_cases hb : b = a ∧ a.index < s.size
  · rw [if_pos hb] at hcell ⊢
    exact read_eq_ok_iff.2 hcell
  · rw [if_neg hb] at hcell ⊢
    exact read_congr hcell

/-- A call changes no cell but its target. -/
theorem getElem?_call {c : Call} {a : Address} (h : c.target? s.size ≠ some a) :
    (s.call c).2.cells[a.index]? = s.cells[a.index]? := by
  cases c with
  | alloc v =>
      have hindex : a.index ≠ s.cells.size := by
        intro he
        apply h
        cases a
        exact congrArg (fun i => some (Address.mk i)) he.symm
      simp [call, Array.getElem?_push, hindex]
  | write b v =>
      have hne : a ≠ b := fun he => h (congrArg some he.symm)
      simp [call, getElem?_write, hne]
  | read b => rfl
  | lastAddressOf v => rfl

/-- Allocations alone make a store larger, by one cell each. -/
theorem size_call (s : Store) (c : Call) :
    (s.call c).2.size = s.size + c.allocates?.toList.length := by
  cases c with
  | alloc v => simp [call, Call.allocates?, size]
  | write a v => simp [call, Call.allocates?]
  | read a => rfl
  | lastAddressOf v => rfl

/-! ## Cells after a history -/

/-- A history may be cut in two, and the second part runs on what the first has left. -/
theorem run_append (pre post : List Call) :
    ∀ s : Store, s.run (pre ++ post) =
      ((s.run pre).1 ++ ((s.run pre).2.run post).1, ((s.run pre).2.run post).2) := by
  induction pre with
  | nil =>
      intro s
      rfl
  | cons c rest ih =>
      intro s
      simp [run, ih]

theorem length_run (calls : List Call) : ∀ s : Store, (s.run calls).1.length = calls.length := by
  induction calls with
  | nil =>
      intro s
      rfl
  | cons c rest ih =>
      intro s
      simp [run, ih]

theorem length_allocated_cons (c : Call) (rest : List Call) :
    (allocated (c :: rest)).length = c.allocates?.toList.length + (allocated rest).length := by
  cases h : c.allocates? <;> simp [allocated, h, Nat.add_comm]

/-- The size of a store counts the allocations of its history. -/
theorem size_run (calls : List Call) :
    ∀ s : Store, (s.run calls).2.size = s.size + (allocated calls).length := by
  induction calls with
  | nil =>
      intro s
      rfl
  | cons c rest ih =>
      intro s
      calc
        (s.run (c :: rest)).2.size = (s.call c).2.size + (allocated rest).length := ih (s.call c).2
        _ = s.size + (allocated (c :: rest)).length := by
          simp only [size_call, length_allocated_cons, Nat.add_assoc]

/-- The addresses that a history is given are those past the end of the store, in order. -/
theorem addresses_run (calls : List Call) : ∀ s : Store,
    (s.run calls).1.filterMap Reply.address? =
      (List.range' s.size (allocated calls).length).map Address.mk := by
  induction calls with
  | nil =>
      intro s
      rfl
  | cons c rest ih =>
      intro s
      have hrest := ih (s.call c).2
      cases c with
      | alloc v =>
          have hsize : (s.call (.alloc v)).2.size = s.size + 1 := size_call s (.alloc v)
          calc
            (s.run (.alloc v :: rest)).1.filterMap Reply.address?
                = ⟨s.size⟩ :: ((s.call (.alloc v)).2.run rest).1.filterMap Reply.address? := rfl
            _ = ⟨s.size⟩ :: (List.range' (s.size + 1) (allocated rest).length).map Address.mk := by
              simp only [hrest, hsize]
            _ = (List.range' s.size (allocated (.alloc v :: rest)).length).map Address.mk := rfl
      | write a v =>
          have hsize : (s.call (.write a v)).2.size = s.size := size_call s (.write a v)
          exact hsize ▸ hrest
      | read a => exact hrest
      | lastAddressOf v => exact hrest

/-- A cell that exists goes on to hold what it holds, until it is written. -/
theorem getElem?_run {a : Address} (calls : List Call) : ∀ {s : Store} {u : Value},
    s.cells[a.index]? = some u → (s.run calls).2.cells[a.index]? =
      some ((calls.filterMap (Call.writes? a)).getLast?.getD u) := by
  induction calls with
  | nil =>
      intro s u hu
      exact hu
  | cons c rest ih =>
      intro s u hu
      have hlt : a.index < s.size := (Array.getElem?_eq_some_iff.1 hu).1
      by_cases htarget : c.target? s.size = some a
      · -- Only a write can have the cell as its target, since the cell is there already.
        cases c with
        | alloc v =>
            have hsize : s.size = a.index := congrArg Address.index (Option.some.inj htarget)
            exact absurd hlt (hsize ▸ Nat.lt_irrefl _)
        | write b v =>
            have hb : b = a := Option.some.inj htarget
            have hnew : (s.call (.write b v)).2.cells[a.index]? = some v := by
              simp [call, getElem?_write, hb, hlt]
            simpa [run, Call.writes?, hb, List.getLast?_cons] using ih hnew
        | read b => cases htarget
        | lastAddressOf v => cases htarget
      · have hkept : (s.call c).2.cells[a.index]? = some u := (getElem?_call htarget).trans hu
        have hwrites : c.writes? a = none := by
          cases c with
          | write b v =>
              have hb : b ≠ a := fun h => htarget (congrArg some h)
              simp [Call.writes?, hb]
          | _ => rfl
        simpa [run, hwrites] using ih hkept

/-- A cell past the end holds nothing until its turn to be allocated, and then what is written to
it last. -/
theorem getElem?_run_of_size_add {a : Address} (calls : List Call) : ∀ {s : Store} {n : Nat},
    a.index = s.size + n → (s.run calls).2.cells[a.index]? =
      (since n calls).map fun (v, later) =>
        (later.filterMap (Call.writes? a)).getLast?.getD v := by
  induction calls with
  | nil =>
      intro s n ha
      have hnone : s.cells[a.index]? = none :=
        Array.getElem?_eq_none (ha ▸ Nat.le_add_right s.cells.size n)
      exact hnone
  | cons c rest ih =>
      intro s n ha
      have hsize := size_call s c
      cases c with
      | alloc v =>
          cases n with
          | zero =>
              have hnew : (s.call (.alloc v)).2.cells[a.index]? = some v := by
                simp [call, ha, size]
              exact getElem?_run rest hnew
          | succ n =>
              have hindex : a.index = (s.call (.alloc v)).2.size + n := by
                simp only [hsize, ha, Call.allocates?, Option.toList_some, List.length_singleton]
                omega
              exact ih hindex
      | write b v =>
          have hindex : a.index = (s.call (.write b v)).2.size + n := hsize.symm ▸ ha
          cases n <;> exact ih hindex
      | read b => cases n <;> exact ih ha
      | lastAddressOf v => cases n <;> exact ih ha

/-- There is an allocation for every number below the number of allocations. -/
theorem isSome_since (calls : List Call) :
    ∀ n : Nat, (since n calls).isSome ↔ n < (allocated calls).length := by
  induction calls with
  | nil =>
      intro n
      simp [since, allocated]
  | cons c rest ih =>
      intro n
      cases c with
      | alloc v =>
          cases n with
          | zero => simp [since, allocated, Call.allocates?]
          | succ n => simpa [since, allocated, Call.allocates?] using ih n
      | write a v => cases n <;> exact ih _
      | read a => cases n <;> exact ih _
      | lastAddressOf v => cases n <;> exact ih _

/-! ## The law -/

/-- A cell has a last write as soon as it is allocated. -/
theorem isSome_lastWritten (a : Address) (calls : List Call) :
    (lastWritten a calls).isSome ↔ a.index < (allocated calls).length := by
  simpa [lastWritten] using isSome_since calls a.index

/-- The cells after a history of an empty store are the last writes of the history. -/
theorem getElem?_run_empty (a : Address) (calls : List Call) :
    (({} : Store).run calls).2.cells[a.index]? = lastWritten a calls :=
  getElem?_run_of_size_add calls (Nat.zero_add a.index).symm

/-- A write that comes before its cell leaves no trace. -/
theorem run_write_of_size_le {a : Address} (h : s.size ≤ a.index) (v : Value)
    (post : List Call) : s.run (.write a v :: post) =
      (.written :: (s.run post).1, (s.run post).2) := by
  simp [run, call, (write_of_size_le h v).1]

/-- Every history of calls on an empty store: allocations are numbered from zero on, a read gives
what was written last since the allocation, and writes that come too early have no effect at all. -/
theorem history_decides_cells (calls : List Call) : FollowsHistory calls where
  addresses := by
    simpa [List.range_eq_range'] using addresses_run calls {}
  increasing := by
    have haddresses := addresses_run calls {}
    simpa [haddresses, List.pairwise_map] using List.pairwise_lt_range'
  size := by
    simpa using size_run calls {}
  read := by
    intro a
    cases hlast : lastWritten a calls with
    | some v => exact read_eq_ok_iff.2 ((getElem?_run_empty a calls).trans hlast)
    | none => simp [Store.read, getElem?_run_empty, hlast]
  readable := fun a => isSome_lastWritten a calls
  refused := by
    intro raw a hraw hle
    have hsize : (({} : Store).run calls).2.size ≤ a.index := by
      simpa [size_run] using hle
    simpa [Address.toInt64_of_ofRaw hraw] using read_of_size_le hsize
  premature := by
    intro pre post a v hcalls hle
    have hsize : (({} : Store).run pre).2.size ≤ a.index := by
      simpa [size_run] using hle
    have hrun := run_write_of_size_le hsize v
    subst hcalls
    refine ⟨?_, ?_, ?_⟩
    · simp [run_append, hrun]
      rfl
    · simp [run_append, hrun]
    · -- The reply to the write stands behind the replies to the calls before it.
      have hlength : pre.length = (({} : Store).run pre).1.length := (length_run pre {}).symm
      simp [run_append, hrun, hlength, List.eraseIdx_append_of_length_le]
  footprint := by
    intro pre post c a _ htarget
    have hsize : (({} : Store).run pre).2.size = (allocated pre).length := by
      simpa using size_run pre {}
    have hkept := getElem?_call (s := (({} : Store).run pre).2) (hsize.symm ▸ htarget)
    exact read_congr (by simpa [run_append, run] using hkept)

/-- A write ahead of the allocation is lost, and of the later writes to the cell the last one
stays. -/
theorem history_of_early_write :
    let late : List Call := [.alloc (.int 1), .alloc (.int 2), .write ⟨1⟩ (.int 3),
      .write ⟨0⟩ (.int 4), .write ⟨1⟩ (.int 5)]
    let calls : List Call := .write ⟨1⟩ (.int 7) :: late
    (({} : Store).run calls).2 = (({} : Store).run late).2 ∧
      (({} : Store).run calls).2.read ⟨1⟩ = .ok (.int 5) ∧
      (({} : Store).run calls).2.read ⟨2⟩ = .error (.illegalAddress 2) := by
  intro late calls
  have h := history_decides_cells calls
  have hearly := h.premature [] late ⟨1⟩ (.int 7) rfl (by decide)
  exact ⟨hearly.2.1, h.read ⟨1⟩, h.refused 2 ⟨2⟩ rfl (by decide)⟩

end Store

end ScopedStore
