import ScopedStore.Proofs.Cells.LastWrite
import ScopedStore.Proofs.Faults.Precedence
import ScopedStore.Proofs.Grounding.Grounded

/-!
# No dangling addresses under legal use

As long as a script gives a session only addresses of cells that the session has at the time, the
session stays grounded, whatever else the script does. Then a name in an environment of the session
either has a value or is bound nowhere, an assignment to a name that has one is read back by the
next look-up, and no write is ever dropped.
-/

namespace ScopedStore.Script.Machine

variable {m m' : Machine} {session x : String} {s : Session} {e : Env} {step : Step}

/-! ## Legal scripts keep sessions grounded -/

/-- Whatever a legal step does, it keeps the session grounded: each kind of change by its own lemma.
-/
theorem Moves.grounded (h : m.Moves step m') (hm : m.Valid)
    (hlegal : m.legal session step = true) (hg : m.Grounded session) : m'.Grounded session := by
  cases h with
  | still _ hworld hsessions henvs _ =>
      refine ⟨?_, ?_⟩
      · simpa only [hworld, hsessions] using hg.globals
      · simpa only [henvs, Backed, hsessions] using hg.envs
  | stored _ _ hs hstore => exact hg.withStore hs hstore.size_le
  | @assigned id x name v s e store a hs _ _ _ hstore =>
      subst hstore
      exact hg.withStore hs (Nat.le_of_eq (Store.size_write s.store a v).symm)
  | opened => exact hg.opened hm _
  | @defined change id s store hbinder hs hstore =>
      subst hstore
      refine (hg.withStore hs (size_le_storeAfter s change)).withBindings
        (hm.sessionLive id s hs) ?_
      intro t ht hroot
      rcases hm.eq_of_root hs ht hroot.symm with ⟨rfl, rfl⟩
      exact covers_bindingsIn hbinder (lt_of_legal hlegal hs)
  | @bound x name raw a e he ha =>
      refine hg.withBindings (hm.envLive x e he) ?_
      intro s hs hroot b hb
      have hrooted : m.rootedIn session x = true := rootedIn_eq_true_iff.2 ⟨s, e, hs, he, hroot⟩
      cases List.mem_singleton.1 hb
      apply lt_of_legal hlegal hs
      simp [offered, hrooted, ha, Except.toOption]
  | found hfinds => exact hg.withEnv hm (hm.admits_of_finds hfinds) (hg.backed_of_finds hfinds) _
  | detached hdetaches =>
      exact (hg.withRoot hm _).withEnv (hm.withRoot (hm.indexed_of_detaches hdetaches))
        (.ofRoot (m.world.live_newRoot _)) (backed_ofRoot _) _
  | @entered id x into names values s e store bindings hs he howns hl hstore hbindings =>
      subst hstore hbindings
      have hgrown : s.store.size ≤ (Store.mk (s.store.cells ++ values.toArray)).size := by
        simp [Store.size]
      have hadmits := hm.admits he
      have hg' := hg.withStore hs hgrown
      refine hg'.withFrames (hm.withStore hs _) ⟨hadmits.fits, hadmits.below, hadmits.live⟩
        (hg'.envs x e he) ?_ into
      intro t ht hroot _
      have hsame : t.root = s.root := hroot.symm.trans (Session.owns_iff.1 howns)
      rcases hm.eq_of_root hs ht hsame with ⟨-, rfl⟩
      exact s.store.covers_allocated names values
  | @nested x into names raws count e bindings addresses he haddresses hbindings _ =>
      subst hbindings
      refine hg.withFrames hm (hm.admits he) (hg.envs x e he) ?_ into
      intro s hs hroot hcount
      have hrooted : m.rootedIn session x = true := rootedIn_eq_true_iff.2 ⟨s, e, hs, he, hroot⟩
      apply Store.covers_zip
      intro a ha
      apply lt_of_legal hlegal hs
      simpa [offered, hrooted, hcount, haddresses, Except.toOption] using ha
  | closed => exact hg.closed _
  | released => exact hg.released hm _

/-- A step that is refused changes nothing, so every legal step keeps the session grounded. -/
theorem Grounded.next (h : m.Grounded session) (hm : m.Valid)
    (hlegal : m.legal session step = true) : (m.next step).Grounded session := by
  rcases m.reply_cases step with ⟨-, -, hsame⟩ | ⟨-, -, hmove⟩
  · simpa only [hsame] using h
  · exact hmove.grounded hm hlegal h

/-- A lawful script keeps the session grounded all along. -/
theorem Grounded.last (steps : List Step) : ∀ {m : Machine}, m.Grounded session → m.Valid →
    m.lawful session steps = true → (m.last steps).Grounded session := by
  induction steps with
  | nil =>
      intro m h _ _
      exact h
  | cons step rest ih =>
      intro m h hm hlawful
      rcases Bool.and_eq_true_iff.1 hlawful with ⟨hlegal, hrest⟩
      exact ih (h.next hm hlegal) (hm.next step) hrest

/-! ## What calls on a grounded session come to -/

namespace Grounded

/-- The global bindings of a grounded session have cells. -/
theorem covers_bindings (h : m.Grounded session) (hs : m.sessions[session]? = some s) :
    s.store.Covers (m.world.globals s.root).bindings :=
  fun b hb => h.globals s hs b (List.mem_reverse.1 hb)

/-- A name that is bound at all is bound to a cell. -/
theorem lt_of_find (h : m.Grounded session) (hm : m.Valid) (hs : m.sessions[session]? = some s)
    (he : m.envs.get? x = some e) (hroot : e.root = s.root) {name : String} {a : Address}
    (ha : m.world.find e name = .ok a) : a.index < s.store.size := by
  have hfind := World.find_eq_found (hm.indexed e.root) name
  cases hor : (e.find? name).or ((m.world.globals e.root).bindings.lookup name) with
  | none => simp [hfind, hor] at ha
  | some b =>
      have hb : b = a := by simpa [hfind, hor] using ha
      subst hb
      rcases Option.or_eq_some_iff.1 hor with hnested | ⟨-, hglobal⟩
      · rcases List.exists_of_findSome?_eq_some hnested with ⟨f, hf, hfirst⟩
        exact (h.envs x e he s hs hroot f hf).lt_of_lookup hfirst
      · rw [hroot] at hglobal
        exact (h.covers_bindings hs).lt_of_lookup hglobal

/-- A name either has a value, and then takes any other by assignment, or is bound nowhere. -/
theorem calls (h : m.Grounded session) (hm : m.Valid) (hrooted : m.rootedIn session x = true)
    (name : String) :
    (∃ v, m.reply (.session (.lookup session x name)) = .ok (.value v) ∧
      ∀ u : Value, m.reply (.session (.assign session x name u)) = .ok .done ∧
        (m.next (.session (.assign session x name u))).reply
          (.session (.lookup session x name)) = .ok (.value u)) ∨
    m.reply (.session (.lookup session x name)) = .error (.fault (.unbound name)) ∧
      ∀ u : Value, m.reply (.session (.assign session x name u)) =
        .error (.fault (.unbound name)) := by
  rcases rootedIn_eq_true_iff.1 hrooted with ⟨s, e, hs, he, hroot⟩
  have howns : s.owns e = true := Session.owns_iff.2 hroot
  rcases World.find_cases (hm.indexed e.root) name with ⟨a, ha, -⟩ | ⟨hfault, -⟩
  · have hlt := h.lt_of_find hm hs he hroot ha
    have hcell : s.store.cells[a.index]? = some s.store.cells[a.index] :=
      Array.getElem?_eq_getElem hlt
    refine .inl ⟨s.store.cells[a.index], reply_lookup_of_cell hs he howns ha hcell, ?_⟩
    intro u
    refine ⟨reply_assign_of_ok hs he howns ha u, ?_⟩
    -- The search goes the same way again, and comes to the cell that was written.
    have hwritten : (s.store.write a u).value.cells[a.index]? = some u := by
      simp [Store.getElem?_write, hlt]
    have hs' : (m.withSession session { s with store := (s.store.write a u).value }).sessions[
        session]? = some { s with store := (s.store.write a u).value } := by
      simp [withSession]
    simpa only [next_assign hs he howns ha u] using reply_lookup_of_cell hs' he howns ha hwritten
  · refine .inr ⟨reply_lookup_of_error hs he howns hfault, ?_⟩
    intro u
    exact reply_assign_of_error hs he howns hfault u

/-- All that an assignment to a name of the session reports is that it searches. -/
theorem searches_assign (h : m.Grounded session) (hm : m.Valid) (x name : String) (v : Value) :
    ∀ event ∈ (m.exec (.session (.assign session x name v))).events, Searches event := by
  rcases m.reply_cases (.session (.assign session x name v)) with
    ⟨refusal, hrefused, -⟩ | ⟨-, -, hmove⟩
  · exact m.onlySearches_exec _ refusal hrefused
  · generalize m.next (.session (.assign session x name v)) = m' at hmove
    cases hmove with
    | still hquiet => cases hquiet
    | defined hbinder => cases hbinder
    | found hfinds => cases hfinds
    | detached hdetaches => cases hdetaches
    | @assigned _ _ _ _ s e _ a hs he howns hfind _ =>
        have hlt := h.lt_of_find hm hs he (Session.owns_iff.1 howns) hfind
        have hevents : (m.exec (.session (.assign session x name v))).events =
            #[.resolving name] := by
          simp [exec, execSession, register?, env?, hs, he, Session.events_assign_of_ok howns hfind,
            Session.value_assign_of_ok howns hfind, Store.write_of_lt hlt, outcome, answer]
        simpa only [hevents] using searches_resolving

end Grounded

/-- Over any script that gives a session only addresses of cells it has: no binding is without a
cell, every name of the session has a value or is bound nowhere, what is assigned is read back, and
no write is reported as dropped. -/
theorem legal_use_never_dangles {session : String} (steps : List Step)
    (h : ({} : Machine).lawful session steps = true) :
    let m := ({} : Machine).last steps
    m.Grounded session ∧
      (∀ x name : String, m.rootedIn session x = true →
        (∃ v, m.reply (.session (.lookup session x name)) = .ok (.value v) ∧
          ∀ u : Value, m.reply (.session (.assign session x name u)) = .ok .done ∧
            (m.next (.session (.assign session x name u))).reply
              (.session (.lookup session x name)) = .ok (.value u)) ∨
        m.reply (.session (.lookup session x name)) = .error (.fault (.unbound name)) ∧
          ∀ u : Value, m.reply (.session (.assign session x name u)) =
            .error (.fault (.unbound name))) ∧
      ∀ (x name : String) (v : Value),
        ∀ event ∈ (m.exec (.session (.assign session x name v))).events,
          event.title ≠ "ignoring store write to illegal address" := by
  intro m
  have hm : m.Valid := valid_empty.last steps
  have hg : m.Grounded session := (Grounded.empty session).last steps valid_empty h
  refine ⟨hg, fun x name hrooted => hg.calls hm hrooted name, ?_⟩
  intro x name v event hevent
  rcases hg.searches_assign hm x name v event hevent with ⟨other, rfl⟩
  simp [Event.title]

/-- One cell bound under three names, in the global frame and in a nested one: an assignment through
any of them is read back. -/
theorem legal_use_of_aliased_cell :
    let steps : List Step := [.session (.create "a" {}), .session (.globalEnv "a" "g"),
      .session (.define "a" "n" (.int 1)), .session (.bind "a" "alias" 0),
      .env (.nest ["p"] [0] "g" 1 "f")]
    let m := ({} : Machine).last steps
    let assign : Step := .session (.assign "a" "f" "p" (.int 7))
    ({} : Machine).lawful "a" steps = true ∧
      (m.next assign).reply (.session (.lookup "a" "f" "p")) = .ok (.value (.int 7)) := by
  intro steps m assign
  have hlawful : ({} : Machine).lawful "a" steps = true := by decide
  rcases legal_use_never_dangles steps hlawful with ⟨-, hcalls, -⟩
  rcases hcalls "f" "p" (by decide) with ⟨v, -, hassign⟩ | ⟨hunbound, -⟩
  · exact ⟨hlawful, (hassign (.int 7)).2⟩
  · have hvalue : m.reply (.session (.lookup "a" "f" "p")) = .ok (.value (.int 1)) := by rfl
    cases hvalue.symm.trans hunbound

end ScopedStore.Script.Machine
