import ScopedStore.Proofs.Reports.Journal

/-!
# The journal of stores

A store grows by one cell with each report of an allocation, and only then. The reports that are
made of one store count its cells through, from the number that there were on.
-/

namespace ScopedStore.Script

inductive Shelf where
  | own (id : String)
  | session (id : String)
  deriving DecidableEq

namespace Machine

def cellsAt (m : Machine) : Shelf → Option Nat
  | .own id => m.stores[id]?.map Store.size
  | .session id => m.sessions[id]?.map fun s => s.store.size

def shelf (m : Machine) (id : String) : Shelf :=
  if m.stores.contains id then .own id else .session id

end Machine

def SessionStep.writer? : SessionStep → Option String
  | .define session _ _ => some session
  | .defineMany session _ _ => some session
  | .enter session _ _ _ _ => some session
  | .assign session _ _ _ => some session
  | _ => none

/-- Where the store is that a step allocates or writes cells in. -/
def Step.shelf? (m : Machine) : Step → Option Shelf
  | .session step => step.writer?.map .session
  | .store step => step.target?.map m.shelf
  | _ => none

/-- Where a step puts a new store, or none, in the place of the old one. -/
def Step.restocks? : Step → Option Shelf
  | .session (.create into _) => some (.session into)
  | .drop .session id => some (.session id)
  | .store (.create into) => some (.own into)
  | .store (.copy _ into) => some (.own into)
  | .drop .store id => some (.own id)
  | _ => none

def cellJournal : Journal Shelf Nat (Address × Nat) where
  kind := Event.allocation?
  at? := Machine.cellsAt
  worked? := fun m step => step.shelf? m
  renewed? := Step.restocks?
  Grows := fun size reports size' => ∃ n, size' = size + n ∧ reports = Store.extensions size n
  refl := fun size => ⟨0, rfl, rfl⟩
  trans := by
    rintro size _ _ _ _ ⟨n, rfl, rfl⟩ ⟨n', rfl, rfl⟩
    exact ⟨n + n', Nat.add_assoc size n n', Store.extensions_append size n n'⟩
  searches := fun _ => rfl
  at?_congr := by
    intro m m' _ hsessions hstores _
    funext k
    cases k <;> simp [Machine.cellsAt, hsessions, hstores]

namespace Machine

variable {m : Machine} {id : String} {s : Session}

/-- A session that is put into a register shows its own store there. -/
theorem cellsAt_withSession (m : Machine) (id : String) (s : Session) (k : Shelf) :
    (m.withSession id s).cellsAt k =
      if k = .session id then some s.store.size else m.cellsAt k := by
  cases k with
  | own other => simp [cellsAt, withSession]
  | session other =>
      by_cases hother : other = id <;>
        simp [cellsAt, withSession, Lookup.getElem?_insert, hother]

/-- A session whose store has as many cells as before. -/
theorem cellsAt_withSession_of_size (hs : m.sessions[id]? = some s) {t : Session}
    (hsize : t.store.size = s.store.size) (k : Shelf) :
    (m.withSession id t).cellsAt k = m.cellsAt k := by
  rw [cellsAt_withSession]
  split
  · rename_i hk
    simp [hk, cellsAt, hs, hsize]
  · rfl

theorem cellsAt_insert_store (m : Machine) (id : String) (s : Store) (k : Shelf) :
    cellsAt { m with stores := m.stores.insert id s } k =
      if k = .own id then some s.size else m.cellsAt k := by
  cases k with
  | own other =>
      by_cases hother : other = id <;> simp [cellsAt, Lookup.getElem?_insert, hother]
  | session other => simp [cellsAt]

/-- Emptying a register of stores is seen there alone. -/
theorem cellsAt_erase_store (m : Machine) (id : String) {k : Shelf} (hk : k ≠ .own id) :
    cellsAt { m with stores := m.stores.erase id } k = m.cellsAt k := by
  cases k with
  | own other =>
      have hother : other ≠ id := fun h => hk (congrArg Shelf.own h)
      simp [cellsAt, Lookup.getElem?_erase, hother]
  | session other => rfl

theorem cellsAt_erase_session (m : Machine) (id : String) {k : Shelf} (hk : k ≠ .session id) :
    cellsAt { m with sessions := m.sessions.erase id } k = m.cellsAt k := by
  cases k with
  | own other => rfl
  | session other =>
      have hother : other ≠ id := fun h => hk (congrArg Shelf.session h)
      simp [cellsAt, Lookup.getElem?_erase, hother]

/-- A register of a store has one of its own, or else that of a session. -/
theorem store?_cases {store : Store} (hs : m.store? id = .ok store) :
    m.stores[id]? = some store ∨
      m.stores[id]? = none ∧ ∃ t, m.sessions[id]? = some t ∧ t.store = store := by
  unfold store? at hs
  cases hown : m.stores[id]? with
  | some t =>
      have hsame : t = store := by simpa [hown] using hs
      exact .inl (congrArg some hsame)
  | none =>
      cases hsession : m.sessions[id]? with
      | none => simp [hown, register?, hsession, Except.map] at hs
      | some t =>
          have hsame : t.store = store := by simpa [hown, register?, hsession, Except.map] using hs
          exact .inr ⟨rfl, t, rfl, hsame⟩

/-- The store of a register is the one on its shelf. -/
theorem cellsAt_shelf {store : Store} (hs : m.store? id = .ok store) :
    m.cellsAt (m.shelf id) = some store.size := by
  rcases store?_cases hs with hown | ⟨hnone, t, ht, rfl⟩
  · simp [shelf, cellsAt, Std.ExtTreeMap.contains_eq_isSome_getElem?, hown]
  · simp [shelf, cellsAt, Std.ExtTreeMap.contains_eq_isSome_getElem?, hnone, ht]

/-- A store that is put back is seen where it was found, and nowhere else. -/
theorem cellsAt_putStore {store : Store} (hs : m.store? id = .ok store) (store' : Store)
    (k : Shelf) : (m.putStore id store').cellsAt k =
      if k = m.shelf id then some store'.size else m.cellsAt k := by
  rcases store?_cases hs with hown | ⟨hnone, t, ht, rfl⟩
  · have hcontains : m.stores.contains id = true := by
      simp [Std.ExtTreeMap.contains_eq_isSome_getElem?, hown]
    simpa [putStore, shelf, hcontains] using m.cellsAt_insert_store id store' k
  · have hcontains : m.stores.contains id = false := by
      simp [Std.ExtTreeMap.contains_eq_isSome_getElem?, hnone]
    rw [putStore_eq_withSession hnone ht]
    simpa [shelf, hcontains] using m.cellsAt_withSession id { t with store := store' } k

/-! ## What each step allocates -/

/-- A step that makes a session's store larger. -/
theorem follows_session {step : SessionStep} {effect : Effect} (hs : m.sessions[id]? = some s)
    (hwriter : step.writer? = some id) {store : Store} (n : Nat)
    (hsize : store.size = s.store.size + n)
    (hcells : ∀ k, effect.value.2.cellsAt k = (m.withSession id { s with store }).cellsAt k)
    (hreports : effect.reports Event.allocation? = Store.extensions s.store.size n) :
    cellJournal.Follows m (.session step) effect := by
  have hworked : cellJournal.worked? m (.session step) = some (.session id) :=
    congrArg (Option.map Shelf.session) hwriter
  refine .work hworked ?_ ?_
  · intro size hat
    have hfound : size = s.store.size := by
      simpa [cellJournal, cellsAt, hs, eq_comm] using hat
    subst hfound
    refine ⟨store.size, ?_, n, hsize, hreports⟩
    simp [cellJournal, hcells, cellsAt_withSession]
  · intro other hother
    simp [cellJournal, hcells, cellsAt_withSession, hother]

/-- A step that makes the store of a register larger. -/
theorem follows_store {step : StoreStep} {effect : Effect} {old store : Store}
    (hs : m.store? id = .ok old) (htarget : step.target? = some id) (n : Nat)
    (hsize : store.size = old.size + n) (hnext : effect.value.2 = m.putStore id store)
    (hreports : effect.reports Event.allocation? = Store.extensions old.size n) :
    cellJournal.Follows m (.store step) effect := by
  have hworked : cellJournal.worked? m (.store step) = some (m.shelf id) :=
    congrArg (Option.map m.shelf) htarget
  refine .work hworked ?_ ?_
  · intro size hat
    have hfound : size = old.size := Option.some.inj (hat.symm.trans (cellsAt_shelf hs))
    subst hfound
    refine ⟨store.size, ?_, n, hsize, hreports⟩
    simp [cellJournal, hnext, cellsAt_putStore hs]
  · intro other hother
    simp [cellJournal, hnext, cellsAt_putStore hs, hother]

/-- A call that allocates no cell. -/
theorem follows_unchanged {step : Step} {effect : Effect} (hs : m.sessions[id]? = some s)
    {t : Session} (hsize : t.store.size = s.store.size)
    (hcells : ∀ k, effect.value.2.cellsAt k = (m.withSession id t).cellsAt k)
    (hreports : effect.reports Event.allocation? = []) :
    cellJournal.Follows m step effect := by
  refine .idle hreports ?_
  intro k n _ hn
  exact (hcells k).trans ((cellsAt_withSession_of_size hs hsize k).trans hn)

/-- A step on a session reports the cells that it allocates in the store of the session. -/
theorem cells_execSession (m : Machine) {step : SessionStep}
    (hplain : (Step.session step).plain = false) :
    cellJournal.Follows m (.session step) (m.execSession step) := by
  cases step with
  | create into capacities =>
      refine .idle rfl ?_
      intro k n hk hn
      have hk : k ≠ .session into := fun h => hk (congrArg some h.symm)
      exact ((m.withRoot {}).cellsAt_withSession into _ k).trans ((if_neg hk).trans hn)
  | bind id name raw => exact .found fun a _ => .found fun s _ => .idle rfl fun _ _ _ hn => hn
  | define id name v =>
      refine .found fun s hs => ?_
      exact follows_session (register?_eq_ok.1 hs) rfl 1 (by simp [Store.size]) (fun _ => rfl) rfl
  | defineMany id stem count =>
      refine .found fun s hs => ?_
      refine follows_session (register?_eq_ok.1 hs) rfl count (s.size_counting count) ?_ ?_
      · intro k
        simp only [Traced.value_bind, s.value_defineMany]
        rfl
      · rw [Traced.reports_bind, s.allocations_defineMany m.world stem count]
        exact List.append_nil _
  | enter id x names values into =>
      refine .found fun s hs => .found fun e _ => ?_
      have hsession := register?_eq_ok.1 hs
      cases howns : s.owns e with
      | false =>
          rw [Session.enter_of_not_owns howns]
          exact follows_unchanged hsession rfl (fun _ => rfl) rfl
      | true =>
          by_cases hl : names.length = values.length
          · have hreports := Store.reports_of_cells (Session.events_enter howns hl m.world)
            have hsize : Store.size ⟨s.store.cells ++ values.toArray⟩ =
                s.store.size + values.length := by simp [Store.size]
            refine follows_session hsession rfl values.length hsize ?_ ?_
            · intro k
              simp only [Traced.value_bind, Session.value_enter howns hl]
              rfl
            · rw [Traced.reports_bind, hreports, Session.value_enter howns hl]
              exact List.append_nil _
          · rw [Session.enter_of_length_ne howns hl]
            exact follows_unchanged hsession rfl (fun _ => rfl) rfl
  | assign id x name v =>
      refine .found fun s hs => .found fun e _ => ?_
      refine follows_unchanged (register?_eq_ok.1 hs) (s.size_assign m.world e name v) ?_ ?_
      · intro k
        simp only [Traced.value_bind]
        cases (s.assign m.world e name v).value.1 <;> rfl
      · rw [Traced.reports_bind, Session.reports_assign (fun _ => rfl) (fun _ _ => rfl)]
        exact Traced.reports_of_silent _ (events_outcome fun _ => rfl)
  | _ => cases hplain

/-- A step on a store reports the cells that it allocates there. -/
theorem cells_execStore (m : Machine) {step : StoreStep}
    (hplain : (Step.store step).plain = false) :
    cellJournal.Follows m (.store step) (m.execStore step) := by
  cases step with
  | create into =>
      refine .idle rfl ?_
      intro k n hk hn
      have hk : k ≠ .own into := fun h => hk (congrArg some h.symm)
      exact (m.cellsAt_insert_store into {} k).trans ((if_neg hk).trans hn)
  | copy store into =>
      refine .found fun s _ => .idle rfl ?_
      intro k n hk hn
      have hk : k ≠ .own into := fun h => hk (congrArg some h.symm)
      exact (m.cellsAt_insert_store into s k).trans ((if_neg hk).trans hn)
  | alloc store v =>
      refine .found fun s hs => ?_
      exact follows_store hs rfl 1 (by simp [Store.size]) rfl rfl
  | allocMany store v count =>
      refine .found fun s hs => ?_
      refine follows_store hs rfl count (s.size_allocMany v count) rfl ?_
      rw [Traced.reports_bind, Store.reports_of_cells (s.events_allocMany v count)]
      exact List.append_nil _
  | write store raw v =>
      refine .found fun a _ => .found fun s hs => ?_
      refine follows_store hs rfl 0 (s.size_write a v) rfl ?_
      rw [Traced.reports_bind, s.reports_write (fun _ _ => rfl) a v]
      rfl
  | _ => cases hplain

/-- The journal of allocations follows every step. -/
theorem cells_exec (m : Machine) (step : Step) : cellJournal.Follows m step (m.exec step) := by
  cases hplain : step.plain with
  | true => exact .of_plain (m.plain_exec hplain)
  | false =>
      cases step with
      | session step => exact m.cells_execSession hplain
      | store step => exact m.cells_execStore hplain
      | env step =>
          cases step with
          | create into => exact .idle rfl fun _ _ _ hn => hn
          | bindGlobal x name raw =>
              exact .found fun a _ => .found fun e _ => .idle rfl fun _ _ _ hn => hn
          | _ => cases hplain
      | globals step =>
          cases step with
          | create into => exact .idle rfl fun _ _ _ hn => hn
          | copy id into => exact .found fun g _ => .idle rfl fun _ _ _ hn => hn
          | bind id name raw =>
              exact .found fun a _ => .found fun g _ => .idle rfl fun _ _ _ hn => hn
          | toEnv id into => exact .found fun g _ => .idle rfl fun _ _ _ hn => hn
          | _ => cases hplain
      | drop kind id =>
          cases kind with
          | session =>
              refine .idle rfl ?_
              intro k n hk hn
              exact (m.cellsAt_erase_session id fun h => hk (congrArg some h.symm)).trans hn
          | store =>
              refine .idle rfl ?_
              intro k n hk hn
              exact (m.cellsAt_erase_store id fun h => hk (congrArg some h.symm)).trans hn
          | globals => exact .idle rfl fun _ _ _ hn => hn
          | _ => cases hplain
      | _ => cases hplain

end Machine

end ScopedStore.Script
