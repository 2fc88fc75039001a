import ScopedStore.Proofs.Footprint.Assignment
import ScopedStore.Proofs.Reports.Bindings
import ScopedStore.Proofs.Reports.Cells

/-!
# Reports are faithful

What a script reports tells what it has done. The allocations that are reported of a store count its
cells from the first to the last, and the bindings that are reported of a global frame are its
history, with each one marked that hides an earlier one. A dropped write is reported by the step
that tried it, and a search by the step that makes it, before anything else; no other step reports
either.
-/

namespace ScopedStore.Script

def Step.stocks? : Step → Option Shelf
  | .session (.create into _) => some (.session into)
  | .store (.create into) => some (.own into)
  | _ => none

def Step.founds? (m : Machine) : Step → Option Seat
  | .session (.create _ _) => some (.root (m.world.newRoot {}).1)
  | .env (.create _) => some (.root (m.world.newRoot {}).1)
  | .globals (.create into) => some (.own into)
  | _ => none

namespace Machine

variable {m : Machine} {step : Step} {id x name : String} {s : Session} {e : Env}

/-- A step tries to write to an address past the end of a store of so many cells. -/
inductive Misses (m : Machine) : Step → Address → Nat → Prop where
  | write {id : String} {raw : Int64} {v : Value} {a : Address} {store : Store} :
      Address.ofRaw raw = .ok a → m.store? id = .ok store → store.size ≤ a.index →
        Misses m (.store (.write id raw v)) a store.size
  | assign {id x name : String} {v : Value} {s : Session} {e : Env} {a : Address} :
      m.sessions[id]? = some s → m.envs.get? x = some e → s.owns e = true →
        m.world.find e name = .ok a → s.store.size ≤ a.index →
          Misses m (.session (.assign id x name v)) a s.store.size

/-! ## Dropped writes -/

/-- A store that is put back unchanged changes nothing. -/
theorem putStore_self {store : Store} (hs : m.store? id = .ok store) : m.putStore id store = m := by
  rcases store?_cases hs with hown | ⟨hnone, t, ht, rfl⟩
  · simp [putStore, Std.ExtTreeMap.contains_eq_isSome_getElem?, hown, Lookup.insert_eq_self]
  · simpa [putStore_eq_withSession hnone ht] using withSession_self ht

/-- A write without a cell is reported once, and changes nothing. -/
theorem warning_of_misses {a : Address} {n : Nat} (h : m.Misses step a n) :
    (m.exec step).reports Event.warning? = [(a, n)] ∧ m.next step = m := by
  cases h with
  | @write id raw v a store ha hs hle =>
      have hdropped := Store.write_of_size_le hle v
      refine ⟨?_, ?_⟩
      · simp [Traced.reports, events_exec_write ha hs, hdropped.2, Event.warning?]
      · have hnext : m.next (.store (.write id raw v)) = m.putStore id (store.write a v).value := by
          simp [next, exec, execStore, address?, ha, hs, answer]
        rw [hnext, hdropped.1]
        exact putStore_self hs
  | @assign id x name v s e a hs he howns ha hle =>
      refine ⟨?_, ?_⟩
      · have hdropped := (Store.write_of_size_le hle v).2
        rw [Traced.reports, events_exec_assign hs he, Session.events_assign_of_ok howns ha,
          hdropped]
        rfl
      · rw [next_assign hs he howns ha]
        exact (withSession_assigned hs rfl).dangling hle

theorem warnings_assign_of_not_misses {v : Value}
    (h : ∀ a n, ¬ m.Misses (.session (.assign id x name v)) a n) :
    (m.exec (.session (.assign id x name v))).reports Event.warning? = [] := by
  rcases m.events_assign_cases id x name v with hnothing | ⟨s, e, hs, he, howns⟩
  · simp [Traced.reports, hnothing]
  · cases hfind : m.world.find e name with
    | error fault =>
        rw [Traced.reports, events_exec_assign hs he, Session.events_assign_of_error howns hfind]
        rfl
    | ok a =>
        have hlt : a.index < s.store.size :=
          Nat.lt_of_not_le fun hle => h a s.store.size (.assign hs he howns hfind hle)
        rw [Traced.reports, events_exec_assign hs he, Session.events_assign_of_ok howns hfind,
          Store.events_write, if_pos hlt]
        rfl

theorem warnings_write_of_not_misses {raw : Int64} {v : Value}
    (h : ∀ a n, ¬ m.Misses (.store (.write id raw v)) a n) :
    (m.exec (.store (.write id raw v))).reports Event.warning? = [] := by
  rcases m.events_write_cases id raw v with hnothing | ⟨a, store, ha, hs⟩
  · simp [Traced.reports, hnothing]
  · have hlt : a.index < store.size :=
      Nat.lt_of_not_le fun hle => h a store.size (.write ha hs hle)
    rw [Traced.reports, events_exec_write ha hs, Store.events_write, if_pos hlt]
    rfl

/-- A step that misses no cell drops no write. -/
theorem warnings_of_not_misses (h : ∀ a n, ¬ m.Misses step a n) :
    (m.exec step).reports Event.warning? = [] := by
  rcases step_cases step with hplain | ⟨hplain, hwrites⟩ | ⟨id, x, name, v, rfl⟩ | ⟨id, raw, v, rfl⟩
  · refine Traced.reports_eq_nil _ ?_
    intro event hevent
    rcases (m.plain_exec hplain).events event hevent with ⟨name, -, rfl⟩
    rfl
  · exact reports_of_growing (fun _ => rfl) (fun _ _ => rfl) (fun _ _ _ => rfl) hplain hwrites
  · exact warnings_assign_of_not_misses h
  · exact warnings_write_of_not_misses h

/-! ## Searches -/

/-- A step that searches for a name reports this first, and does not report another search. -/
theorem search_of_asks (h : m.Asks step name) : ∃ rest, (m.exec step).events.toList =
    .resolving name :: rest ∧ rest.filterMap Event.search? = [] := by
  cases h with
  | resolve he => exact ⟨[], by simp [events_exec_resolve he], rfl⟩
  | lookup hs he howns =>
      exact ⟨[], by simp [events_exec_lookup hs he, Session.events_lookup howns], rfl⟩
  | @assign id x name v s e hs he howns =>
      cases hfind : m.world.find e name with
      | error fault =>
          refine ⟨[], ?_, rfl⟩
          simp [events_exec_assign hs he, Session.events_assign_of_error howns hfind]
      | ok a =>
          refine ⟨(s.store.write a v).events.toList, ?_, s.store.reports_write (fun _ _ => rfl) a v⟩
          simp [events_exec_assign hs he, Session.events_assign_of_ok howns hfind]

/-- A step that searches for nothing reports no search. -/
theorem searches_of_not_asks (h : ∀ name, ¬ m.Asks step name) :
    (m.exec step).reports Event.search? = [] := by
  rcases step_cases step with hplain | ⟨hplain, hwrites⟩ | ⟨id, x, name, v, rfl⟩ | ⟨id, raw, v, rfl⟩
  · refine Traced.reports_eq_nil _ ?_
    intro event hevent
    rcases (m.plain_exec hplain).events event hevent with ⟨name, hasks, -⟩
    exact absurd hasks (h name)
  · exact reports_of_growing (fun _ => rfl) (fun _ _ => rfl) (fun _ _ _ => rfl) hplain hwrites
  · rcases m.events_assign_cases id x name v with hnothing | ⟨s, e, hs, he, howns⟩
    · simp [Traced.reports, hnothing]
    · exact absurd (.assign hs he howns) (h name)
  · rcases m.events_write_cases id raw v with hnothing | ⟨a, store, ha, hs⟩
    · simp [Traced.reports, hnothing]
    · rw [Traced.reports, events_exec_write ha hs]
      exact store.reports_write (fun _ _ => rfl) a v

/-- A step that searches is not answered as foreign. -/
theorem reply_ne_foreign_of_asks (h : m.Asks step name) :
    m.reply step ≠ .error (.fault .foreign) := by
  intro hforeign
  cases h with
  | @resolve x name e he =>
      have hfind := m.world.find_ne_foreign e name
      rw [reply_search he] at hforeign
      exact hfind (mapped_eq_foreign.1 hforeign)
  | lookup hs he howns =>
      exact (reply_eq_foreign_iff rfl hs he).1 hforeign (Session.owns_iff.1 howns)
  | assign hs he howns =>
      exact (reply_eq_foreign_iff rfl hs he).1 hforeign (Session.owns_iff.1 howns)

/-- A call that is answered as foreign reports nothing. -/
theorem events_of_foreign (h : m.reply step = .error (.fault .foreign)) :
    (m.exec step).events = #[] := by
  have hnone : ∀ name, ¬ m.Asks step name := fun name hasks => reply_ne_foreign_of_asks hasks h
  have hsearches := searches_of_not_asks hnone
  rw [Array.eq_empty_iff_forall_not_mem]
  intro event hevent
  rcases m.onlySearches_exec step _ h event hevent with ⟨name, rfl⟩
  have hnothing := List.filterMap_eq_nil_iff.1 hsearches _ (Array.mem_toList_iff.2 hevent)
  cases hnothing

/-! ## Whole scripts -/

/-- What a step reports by itself. -/
structure Told (m : Machine) (step : Step) : Prop where
  /-- A write without a cell is reported once, with its address and the number of cells that there
  are, and changes nothing. -/
  missed : ∀ a n, m.Misses step a n →
    (m.exec step).reports Event.warning? = [(a, n)] ∧ m.next step = m
  /-- No other step reports a dropped write. -/
  hit : (∀ a n, ¬ m.Misses step a n) → (m.exec step).reports Event.warning? = []
  /-- A search is reported once, and before anything else. -/
  asked : ∀ name, m.Asks step name → ∃ rest,
    (m.exec step).events.toList = .resolving name :: rest ∧ rest.filterMap Event.search? = []
  /-- No other step reports a search. -/
  unasked : (∀ name, ¬ m.Asks step name) → (m.exec step).reports Event.search? = []
  foreign : m.reply step = .error (.fault .foreign) → (m.exec step).events = #[]
  /-- A step that works on no store and on no global frame reports no growth of one. -/
  cells : step.shelf? m = none → (m.exec step).reports Event.allocation? = []
  bindings : step.seat? m = none → (m.exec step).reports Event.binding? = []
  /-- A definition reports its cell, and then that the name is bound to it. -/
  defined : ∀ (id name : String) (v : Value) (s : Session), step = .session (.define id name v) →
    m.sessions[id]? = some s → (m.exec step).events =
      #[.cellAllocated ⟨s.store.size⟩ (s.store.size + 1),
        .nameBound name ⟨s.store.size⟩ ((m.world.globals s.root).binds name)]
  /-- A frame that is entered reports the cells of its values, from the first to the last. -/
  entered : ∀ (id x into : String) (names : List String) (values : List Value) (s : Session)
    (e : Env), step = .session (.enter id x names values into) → m.sessions[id]? = some s →
      m.envs.get? x = some e → s.owns e = true → names.length = values.length →
        (m.exec step).events =
          ((Store.extensions s.store.size values.length).map Event.ofCell).toArray

/-- Every step reports by itself what it has dropped and what it searches for. -/
theorem told (m : Machine) (step : Step) : m.Told step where
  missed := fun _ _ h => warning_of_misses h
  hit := warnings_of_not_misses
  asked := fun _ h => search_of_asks h
  unasked := searches_of_not_asks
  foreign := events_of_foreign
  cells := (m.cells_exec step).stray
  bindings := (m.bindings_exec step).stray
  defined := by
    rintro id name v s rfl hs
    exact events_exec_define hs name v
  entered := by
    rintro id x into names values s e rfl hs he howns hl
    rw [events_exec_enter hs he, Session.events_enter howns hl]

/-- A store that has just been made has no cells. -/
theorem cellsAt_of_stocks {k : Shelf} (h : step.stocks? = some k) :
    (m.next step).cellsAt k = some 0 := by
  cases step with
  | session step =>
      cases step with
      | create into capacities =>
          cases h
          exact ((m.withRoot {}).cellsAt_withSession into _ _).trans (if_pos rfl)
      | _ => cases h
  | store step =>
      cases step with
      | create into =>
          cases h
          exact (m.cellsAt_insert_store into {} _).trans (if_pos rfl)
      | _ => cases h
  | _ => cases h

/-- A global frame that has just been made has no bindings. -/
theorem globalsAt_of_founds {k : Seat} (h : step.founds? m = some k) :
    (m.next step).globalsAt k = some {} := by
  have hroot : (m.withRoot {}).globalsAt (.root (m.world.newRoot {}).1) = some {} :=
    (m.world.roots.get?_alloc {} _).trans (if_pos rfl)
  cases step with
  | session step =>
      cases step with
      | create into capacities =>
          cases h
          exact hroot
      | _ => cases h
  | env step =>
      cases step with
      | create into =>
          cases h
          exact hroot
      | _ => cases h
  | globals step =>
      cases step with
      | create into =>
          cases h
          exact (m.globalsAt_insert into {} _).trans (if_pos rfl)
      | _ => cases h
  | _ => cases h

/-- The reports of a store that was made empty count its cells, the reports of a global frame that
was made empty are its history, and what is reported besides is told by each step for itself. -/
theorem reports_are_faithful (pre : List Step) (made : Step) (post : List Step) :
    let before := ({} : Machine).last pre
    let after := before.last (made :: post)
    (∀ k, made.stocks? = some k → (∀ step ∈ post, step.restocks? ≠ some k) →
      ∃ size, after.cellsAt k = some size ∧ cellJournal.entries k (before.next made) post =
        (List.range size).map fun i => (⟨i⟩, i + 1)) ∧
    (∀ k, made.founds? before = some k → (∀ step ∈ post, step.reseats? ≠ some k) →
      ∃ g, after.globalsAt k = some g ∧
        (bindingJournal.entries k (before.next made) post).map (fun b => (b.name, b.address)) =
          g.bindings.reverse ∧
        ∀ earlier b later,
          bindingJournal.entries k (before.next made) post = earlier ++ b :: later →
            (b.shadows = true ↔ b.name ∈ earlier.map Binding.name)) ∧
    ∀ (m : Machine) (step : Step), m.Told step := by
  intro before after
  refine ⟨?_, ?_, told⟩
  · intro k hmade hpost
    rcases cellJournal.grows_last cells_exec post hpost (cellsAt_of_stocks hmade) with
      ⟨size, hsize, n, rfl, hreports⟩
    refine ⟨0 + n, hsize, ?_⟩
    simpa [Store.extensions, List.range_eq_range'] using hreports
  · intro k hmade hpost
    rcases bindingJournal.grows_last bindings_exec post hpost (globalsAt_of_founds hmade) with
      ⟨g, hg, bs, rfl, hreports⟩
    refine ⟨_, hg, ?_, ?_⟩
    · rw [hreports, Globals.map_bound, Globals.bindings, List.reverse_reverse,
        Globals.history_pushAll]
      rfl
    · intro earlier b later hsplit
      simpa using Globals.indexed_empty.shadows_iff (hreports.symm.trans hsplit)

/-- A session in which a name is defined twice: two cells are reported, and the second binding hides
the first. A write past the two cells is then reported with their number. -/
theorem reports_of_redefinition :
    let made : Step := .session (.create "s" {})
    let post : List Step :=
      [.session (.define "s" "a" (.int 1)), .session (.define "s" "a" (.int 2))]
    let m := ({} : Machine).next made
    cellJournal.entries (.session "s") m post = [(⟨0⟩, 1), (⟨1⟩, 2)] ∧
      (∃ g, (m.last post).globalsAt (.root ⟨0⟩) = some g ∧
        g.bindings.reverse = [("a", ⟨0⟩), ("a", ⟨1⟩)]) ∧
      ((m.last post).exec (.store (.write "s" 5 (.int 3)))).reports Event.warning? =
        [(⟨5⟩, 2)] := by
  intro made post m
  rcases reports_are_faithful [] made post with ⟨hcells, hbindings, htold⟩
  rcases hcells (.session "s") rfl (by decide) with ⟨size, hsize, hentries⟩
  have htwo : size = 2 := Option.some.inj (hsize.symm.trans (by rfl))
  subst htwo
  rcases hbindings (.root ⟨0⟩) rfl (by decide) with ⟨g, hg, hreplay, -⟩
  have hmisses : (m.last post).Misses (.store (.write "s" 5 (.int 3))) ⟨5⟩ 2 :=
    @Misses.write (m.last post) "s" 5 (.int 3) ⟨5⟩ ⟨#[.int 1, .int 2]⟩ rfl (by rfl) (by decide)
  exact ⟨hentries, ⟨g, hg, hreplay.symm.trans (by rfl)⟩, ((htold _ _).missed _ _ hmisses).1⟩

end Machine

end ScopedStore.Script
