import ScopedStore.Proofs.Faults.Refused
import ScopedStore.Proofs.Repeated

/-!
# What the operations report

Four kinds of events say what happens to stores and frames: a cell was allocated, a name was bound,
a write was dropped, and a name was searched for. This module says which events of each kind an
operation reports. Many operations in a row report what each of them reports on what the ones before
have left.
-/

namespace ScopedStore

structure Binding where
  name : String
  address : Address
  shadows : Bool
  deriving DecidableEq

namespace Event

/-- The cell that an event reports as allocated, and the number of cells that there are with it. -/
def allocation? : Event → Option (Address × Nat)
  | cellAllocated a size => some (a, size)
  | _ => none

def binding? : Event → Option Binding
  | nameBound name a shadows => some ⟨name, a, shadows⟩
  | _ => none

def warning? : Event → Option (Address × Nat)
  | writeIgnored a size => some (a, size)
  | _ => none

def ofCell (cell : Address × Nat) : Event :=
  cellAllocated cell.1 cell.2

def search? : Event → Option String
  | resolving name => some name
  | _ => none

end Event

namespace Traced

variable {α β ρ : Type}

def reports (kind : Event → Option ρ) (x : Traced α) : List ρ :=
  x.events.toList.filterMap kind

variable (kind : Event → Option ρ)

@[simp] theorem reports_pure (a : α) : reports kind (pure a : Traced α) = [] := rfl

@[simp] theorem reports_emit (event : Event) :
    reports kind (emit event) = (kind event).toList := by
  cases h : kind event <;> simp [reports, h]

/-- Two computations in a row report what each of them reports. -/
@[simp] theorem reports_bind (x : Traced α) (f : α → Traced β) :
    reports kind (x >>= f) = reports kind x ++ reports kind (f x.value) := by
  simp [reports]

@[simp] theorem reports_map (g : α → β) (x : Traced α) :
    reports kind (g <$> x) = reports kind x := by
  simp [reports]

/-- A computation without events reports nothing of any kind. -/
theorem reports_of_silent {x : Traced α} (h : x.events = #[]) : reports kind x = [] := by
  simp [reports, h]

/-- A computation whose events are all of another kind. -/
theorem reports_eq_nil {x : Traced α} (h : ∀ event ∈ x.events, kind event = none) :
    reports kind x = [] := by
  refine List.filterMap_eq_nil_iff.2 ?_
  intro event hevent
  exact h event (Array.mem_toList_iff.1 hevent)

end Traced

/-! ## Cells -/

namespace Store

/-- The reports of `n` further cells in a store of `first` cells: each with its address and the
number of cells that there are with it. -/
def extensions (first n : Nat) : List (Address × Nat) :=
  (List.range' first n).map fun i => (⟨i⟩, i + 1)

/-- The reports of further cells go on where the last ones ended. -/
theorem extensions_append (first m n : Nat) :
    extensions first m ++ extensions (first + m) n = extensions first (m + n) := by
  simp [extensions, ← List.map_append, List.range'_append_1]

/-- Allocating for many values reports the new cells from left to right. -/
theorem events_allocAll (vs : List Value) : ∀ s : Store, (s.allocAll vs).events =
    ((extensions s.size vs.length).map Event.ofCell).toArray := by
  induction vs with
  | nil =>
      intro s
      rfl
  | cons v vs ih =>
      intro s
      have hrest := ih ⟨s.cells.push v⟩
      simp only [size, Array.size_push] at hrest
      simp [allocAll, hrest, extensions, Event.ofCell, size, List.range'_succ]

/-- Allocating many cells reports them one after the other. -/
theorem events_allocMany (s : Store) (v : Value) (n : Nat) : (s.allocMany v n).events =
    ((extensions s.size n).map Event.ofCell).toArray := by
  -- Each turn allocates past the cells of the turns before.
  induction n with
  | zero => rfl
  | succ n ih =>
      have hsize : ((s.allocMany v n).value.2).size = s.size + n := s.size_allocMany v n
      have hturn : s.allocMany v (n + 1) = s.allocMany v n >>= fun r =>
          r.2.alloc v >>= fun cell => pure (some cell.1, cell.2) := Traced.iterate_succ n _ _
      rw [hturn, Traced.events_bind, ih, ← extensions_append, List.map_append,
        ← List.append_toArray, ← hsize]
      rfl

/-- Cells that are reported one by one are told apart by their reports. -/
theorem reports_of_cells {α : Type} {x : Traced α} {cells : List (Address × Nat)}
    (h : x.events = (cells.map Event.ofCell).toArray) :
    x.reports Event.allocation? = cells := by
  simp [Traced.reports, h, Event.allocation?, Event.ofCell, Function.comp_def]

/-- Cells are reported as nothing else. -/
theorem reports_of_cells_eq_nil {α ρ : Type} {kind : Event → Option ρ}
    (hcell : ∀ a size, kind (.cellAllocated a size) = none) {x : Traced α}
    {cells : List (Address × Nat)} (h : x.events = (cells.map Event.ofCell).toArray) :
    x.reports kind = [] := by
  simp [Traced.reports, h, Event.ofCell, hcell]

/-- A write reports nothing but that it is dropped. -/
theorem events_write (s : Store) (a : Address) (v : Value) :
    (s.write a v).events = if a.index < s.size then #[] else #[.writeIgnored a s.size] := by
  split
  · rename_i hlt
    rw [write_of_lt hlt]
    rfl
  · rename_i hle
    exact (write_of_size_le (Nat.not_lt.1 hle) v).2

/-- The only thing that a write can report is that it was dropped. -/
theorem reports_write {ρ : Type} {kind : Event → Option ρ}
    (hwarning : ∀ a size, kind (.writeIgnored a size) = none) (s : Store) (a : Address)
    (v : Value) : (s.write a v).reports kind = [] := by
  unfold Traced.reports
  rw [events_write]
  split
  · rfl
  · simp [hwarning]

end Store

/-! ## Bindings -/

namespace Globals

/-- The reports of names that are bound in a frame one after the other. -/
def bound (g : Globals) : List (String × Address) → List Binding
  | [] => []
  | b :: rest => ⟨b.1, b.2, g.binds b.1⟩ :: (g.push b.1 b.2).bound rest

theorem pushAll_append (bs cs : List (String × Address)) (g : Globals) :
    g.pushAll (bs ++ cs) = (g.pushAll bs).pushAll cs :=
  List.foldl_append

/-- The reports of further names are made of the frame as it is by then. -/
theorem bound_append (bs cs : List (String × Address)) :
    ∀ g : Globals, g.bound (bs ++ cs) = g.bound bs ++ (g.pushAll bs).bound cs := by
  induction bs with
  | nil =>
      intro g
      rfl
  | cons b rest ih =>
      intro g
      exact congrArg (_ :: ·) (ih (g.push b.1 b.2))

/-- What is reported is what is bound, in order. -/
theorem map_bound (bs : List (String × Address)) :
    ∀ g : Globals, (g.bound bs).map (fun b => (b.name, b.address)) = bs := by
  induction bs with
  | nil =>
      intro g
      rfl
  | cons b rest ih =>
      intro g
      exact congrArg (b :: ·) (ih (g.push b.1 b.2))

/-- The index has the names of the history. -/
theorem Indexed.binds_iff {g : Globals} (h : g.Indexed) (name : String) :
    g.binds name = true ↔ name ∈ g.history.toList.map Prod.fst := by
  have hindex := h name
  simp [binds, Std.ExtTreeMap.contains_eq_isSome_getElem?, hindex, bindings, List.lookup_isSome_iff]

/-- A binding is reported as shadowing exactly when its name was bound in the frame before. -/
theorem Indexed.shadows_iff {pre post : List Binding} {b : Binding} :
    ∀ {g : Globals} {bs : List (String × Address)}, g.Indexed → g.bound bs = pre ++ b :: post →
      (b.shadows = true ↔
        b.name ∈ g.history.toList.map Prod.fst ∨ b.name ∈ pre.map Binding.name) := by
  -- A binding that is reported before is part of the history when the next one is reported.
  induction pre with
  | nil =>
      intro g bs h hbound
      cases bs with
      | nil => cases hbound
      | cons first rest =>
          cases hbound
          simpa using h.binds_iff first.1
  | cons p pre ih =>
      intro g bs h hbound
      cases bs with
      | nil => cases hbound
      | cons first rest =>
          injection hbound with hfirst hrest
          subst hfirst
          rw [ih (h.push first.1 first.2) hrest]
          simp [Globals.push, or_assoc]

end Globals

/-! ## Sessions -/

namespace Session

variable {s : Session} {e : Env} {w : World} {name : String}

/-- A definition reports its cell, and then the name for it. -/
theorem events_define (s : Session) (w : World) (name : String) (v : Value) :
    (s.define w name v).events = #[.cellAllocated ⟨s.store.size⟩ (s.store.size + 1),
      .nameBound name ⟨s.store.size⟩ ((w.globals s.root).binds name)] := rfl

theorem bindings_define (s : Session) (w : World) (name : String) (v : Value) :
    (s.define w name v).reports Event.binding? =
      [⟨name, ⟨s.store.size⟩, (w.globals s.root).binds name⟩] := rfl

/-- A frame that is entered reports one cell for each value, in order, and nothing else. -/
theorem events_enter (h : s.owns e = true) {names : List String} {values : List Value}
    (hl : names.length = values.length) (w : World) : (s.enter w e names values).events =
      ((Store.extensions s.store.size values.length).map Event.ofCell).toArray := by
  simp [enter, h, hl, Store.events_allocAll]

/-- Entering a frame reports cells only. -/
theorem reports_enter {ρ : Type} {kind : Event → Option ρ}
    (hcell : ∀ a size, kind (.cellAllocated a size) = none) (s : Session) (w : World) (e : Env)
    (names : List String) (values : List Value) :
    (s.enter w e names values).reports kind = [] := by
  cases howns : s.owns e with
  | false => simp [enter_of_not_owns howns]
  | true =>
      by_cases hl : names.length = values.length
      · exact Store.reports_of_cells_eq_nil hcell (events_enter howns hl w)
      · simp [enter_of_length_ne howns hl]

/-- Entering a frame leaves the global frames alone. -/
theorem roots_enter (s : Session) (w : World) (e : Env) (names : List String)
    (values : List Value) : (s.enter w e names values).value.2.2.roots = w.roots := by
  cases howns : s.owns e with
  | false => simp [enter_of_not_owns howns]
  | true =>
      by_cases hl : names.length = values.length
      · simp [value_enter howns hl]
      · simp [enter_of_length_ne howns hl]

/-- An assignment reports its search, and that its write is dropped if it is; nothing of another
kind. -/
theorem reports_assign {ρ : Type} {kind : Event → Option ρ}
    (hsearch : ∀ name, kind (.resolving name) = none)
    (hwarning : ∀ a size, kind (.writeIgnored a size) = none) (s : Session) (w : World) (e : Env)
    (name : String) (v : Value) : (s.assign w e name v).reports kind = [] := by
  cases howns : s.owns e with
  | false => simp [assign_of_not_owns howns]
  | true =>
      cases hfind : w.find e name with
      | error fault => simp [Traced.reports, events_assign_of_error howns hfind, hsearch]
      | ok a =>
          have hwrite := s.store.reports_write hwarning a v
          simpa [Traced.reports, events_assign_of_ok howns hfind, hsearch] using hwrite

/-- An assignment allocates nothing. -/
theorem size_assign (s : Session) (w : World) (e : Env) (name : String) (v : Value) :
    (s.assign w e name v).value.2.store.size = s.store.size := by
  cases howns : s.owns e with
  | false => simp [assign_of_not_owns howns]
  | true =>
      cases hfind : w.find e name with
      | error fault => simp [value_assign_of_error howns hfind]
      | ok a => simp [value_assign_of_ok howns hfind]

/-- Many definitions end with the last of them. -/
theorem defineMany_succ (s : Session) (w : World) (stem : String) (n : Nat) :
    s.defineMany w stem (n + 1) = s.defineMany w stem n >>= fun r =>
      r.2.1.define r.2.2 (stem ++ toString n) (.int (Int64.ofNat n)) >>= fun d =>
        pure (some d.1, d.2.1, d.2.2) :=
  Traced.iterate_succ n _ _

/-- Many definitions report nothing but new cells and names. -/
theorem reports_defineMany {ρ : Type} {kind : Event → Option ρ}
    (hcell : ∀ a size, kind (.cellAllocated a size) = none)
    (hbound : ∀ name a shadows, kind (.nameBound name a shadows) = none) (s : Session) (w : World)
    (stem : String) (n : Nat) : (s.defineMany w stem n).reports kind = [] := by
  induction n with
  | zero => rfl
  | succ n ih =>
      rw [defineMany_succ, Traced.reports_bind, ih]
      simp [Traced.reports, events_define, hcell, hbound]

/-- Many definitions report one cell each. -/
theorem allocations_defineMany (s : Session) (w : World) (stem : String) (n : Nat) :
    (s.defineMany w stem n).reports Event.allocation? = Store.extensions s.store.size n := by
  induction n with
  | zero => rfl
  | succ n ih =>
      have hsize : (s.defineMany w stem n).value.2.1.store.size = s.store.size + n := by
        simp [value_defineMany, size_counting]
      rw [defineMany_succ, Traced.reports_bind, ih, ← Store.extensions_append, ← hsize]
      rfl

/-- Many definitions report one name each. -/
theorem bindings_defineMany (hlive : w.Live s.root) (stem : String) (n : Nat) :
    (s.defineMany w stem n).reports Event.binding? =
      (w.globals s.root).bound (definitions stem s.store.size n) := by
  induction n with
  | zero => rfl
  | succ n ih =>
      have hdefinitions : definitions stem s.store.size (n + 1) =
          definitions stem s.store.size n ++ [(stem ++ toString n, ⟨s.store.size + n⟩)] := by
        simp [definitions, List.range_succ]
      have hglobals := World.globals_bindAll s.root (definitions stem s.store.size n) hlive s.root
      rw [if_pos rfl] at hglobals
      rw [defineMany_succ, Traced.reports_bind, ih, hdefinitions, Globals.bound_append, ← hglobals]
      have hroot : (s.counting n).root = s.root := rfl
      simp [value_defineMany, bindings_define, size_counting, hroot, Globals.bound]

end Session

end ScopedStore
