import ScopedStore.Proofs.Addresses.Exact
import ScopedStore.Proofs.Grounding.Grounded
import ScopedStore.Proofs.History.Standing

/-!
# Addresses in bindings

A script binds names to addresses that it was given and to those of cells that it has just allocated.
The first are exact as signed integers are, and the second as long as no store has more cells than
there are signed integers from zero on. So all addresses that are bound anywhere are exact.
-/

namespace ScopedStore

/-- Every address that a list of bindings gives is exact. -/
def ExactBindings (bindings : List (String × Address)) : Prop :=
  ∀ b ∈ bindings, b.2.Exact

namespace ExactBindings

variable {bindings added : List (String × Address)}

theorem nil : ExactBindings [] := by
  intro b hb
  cases hb

theorem append (h : ExactBindings bindings) (hadded : ExactBindings added) :
    ExactBindings (bindings ++ added) := by
  intro b hb
  rcases List.mem_append.1 hb with hb | hb
  · exact h b hb
  · exact hadded b hb

theorem zip (names : List String) {addresses : List Address} (h : ∀ a ∈ addresses, a.Exact) :
    ExactBindings (names.zip addresses) :=
  fun _ hb => h _ (List.of_mem_zip hb).2

/-- Bindings to the cells of a store that has room. -/
theorem of_covers {s : Store} (h : s.Covers bindings) (hsize : s.size ≤ 2 ^ 63 - 1) :
    ExactBindings bindings := by
  intro b hb
  have hlt := h b hb
  change b.2.index < 2 ^ 63
  omega

/-- What is found in exact bindings is exact. -/
theorem exact_of_lookup (h : ExactBindings bindings) {name : String} {a : Address}
    (hfound : bindings.lookup name = some a) : a.Exact := by
  rcases List.lookup_eq_some_iff.1 hfound with ⟨l₁, l₂, hsplit, -⟩
  exact h (name, a) (by simp [hsplit])

/-- What a name means in a global frame with exact bindings is an exact address. -/
theorem exact_of_find {g : Globals} (h : ExactBindings g.history.toList) (hg : g.Indexed)
    {name : String} {a : Address} (hfind : g.find name = .ok a) : a.Exact := by
  have hbindings : ExactBindings g.bindings := fun b hb => h b (List.mem_reverse.1 hb)
  rw [hg.find_eq] at hfind
  cases hfound : g.bindings.lookup name with
  | none => simp [hfound] at hfind
  | some b =>
      rw [hfound] at hfind
      cases hfind
      exact hbindings.exact_of_lookup hfound

end ExactBindings

namespace Script.Machine

/-- No store has more cells than a vector can have. -/
structure Roomy (m : Machine) : Prop where
  stores : ∀ (id : String) (s : Store), m.stores[id]? = some s → s.size ≤ 2 ^ 63 - 1
  sessions : ∀ (id : String) (s : Session), m.sessions[id]? = some s → s.store.size ≤ 2 ^ 63 - 1

instance (m : Machine) : Decidable m.Roomy :=
  decidable_of_iff ((∀ p ∈ m.stores.toList, p.2.size ≤ 2 ^ 63 - 1) ∧
      ∀ p ∈ m.sessions.toList, p.2.store.size ≤ 2 ^ 63 - 1)
    ⟨fun h => ⟨fun id s hs => h.1 (id, s) (Std.ExtTreeMap.mem_toList_iff_getElem?_eq_some.2 hs),
      fun id s hs => h.2 (id, s) (Std.ExtTreeMap.mem_toList_iff_getElem?_eq_some.2 hs)⟩,
    fun h => ⟨fun p hp => h.stores p.1 p.2 (Std.ExtTreeMap.mem_toList_iff_getElem?_eq_some.1 hp),
      fun p hp => h.sessions p.1 p.2 (Std.ExtTreeMap.mem_toList_iff_getElem?_eq_some.1 hp)⟩⟩

/-- The stores have room before a script and after each of its steps. -/
def RoomyAlong (m : Machine) : List Step → Prop
  | [] => m.Roomy
  | step :: rest => m.Roomy ∧ (m.next step).RoomyAlong rest

def ExactFrames (e : Env) : Prop :=
  ∀ f ∈ e.frames, ExactBindings f.bindings

/-- All addresses that are bound anywhere are exact. -/
structure HoldsExact (m : Machine) : Prop where
  roots : ∀ r : Ref Globals, ExactBindings (m.world.globals r).history.toList
  envs : ∀ (x : String) (e : Env), m.envs.get? x = some e → ExactFrames e
  standing : ∀ (id : String) (g : Globals), m.globals[id]? = some g →
    ExactBindings g.history.toList

variable {m m' : Machine} {step : Step} {id x into : String} {s : Session} {e : Env} {a : Address}
variable {bindings : List (String × Address)}

/-! ## What the steps bind -/

/-- A session that has room binds its new cells to exact addresses. -/
theorem exact_bindingsIn {step : SessionStep} (hbinder : step.binder? = some id)
    (hsize : (storeAfter s step).size ≤ 2 ^ 63 - 1) : ExactBindings (bindingsIn s step) := by
  cases step with
  | bind _ name raw =>
      intro b hb
      rcases List.mem_map.1 hb with ⟨a, ha, rfl⟩
      cases hraw : Address.ofRaw raw with
      | ok a' =>
          have heq : a = a' := by simpa [hraw, Except.toOption] using ha
          exact heq ▸ Address.exact_of_ofRaw hraw
      | error f => simp [hraw, Except.toOption] at ha
  | define _ name v =>
      exact .of_covers (covers_bindingsIn (m := {}) rfl (by simp [offered])) hsize
  | defineMany _ stem count =>
      exact .of_covers (covers_bindingsIn (m := {}) rfl (by simp [offered])) hsize
  | _ => cases hbinder

theorem exactFrames_ofRoot (r : Ref Globals) : ExactFrames (.ofRoot r) := by
  intro f hf
  cases hf

/-- An environment that a step finds has exact frames, since it has been there before. -/
theorem HoldsExact.of_finds (h : m.HoldsExact) (hfinds : m.Finds step into e) :
    ExactFrames e := by
  cases hfinds with
  | own _ => exact exactFrames_ofRoot _
  | copy he => exact h.envs _ _ he
  | global _ => exact exactFrames_ofRoot _
  | enclosing he =>
      intro f hf
      exact h.envs _ _ he f (List.mem_cons_of_mem _ hf)

/-- What a step puts into a detached frame is empty or has been in a frame in a register. -/
theorem HoldsExact.of_detaches (h : m.HoldsExact) {g : Globals}
    (hdetaches : m.Detaches step into g) : ExactBindings g.history.toList := by
  cases hdetaches with
  | create => exact .nil
  | copy hg => exact h.standing _ _ hg

/-! ## Frames that stand alone -/

/-- Steps on the frames in registers add only addresses that they were given. -/
theorem exact_file {t : Registers Globals}
    (h : ∀ (id : String) (g : Globals), t[id]? = some g → ExactBindings g.history.toList)
    (step : Step) : ∀ (id : String) (g : Globals), (step.file {} Globals.push t)[id]? = some g →
      ExactBindings g.history.toList := by
  have hinsert : ∀ {into : String} {g : Globals}, ExactBindings g.history.toList →
      ∀ (id : String) (g' : Globals), (t.insert into g)[id]? = some g' →
        ExactBindings g'.history.toList := by
    intro into g hg id g' hg'
    rw [Lookup.getElem?_insert] at hg'
    split at hg'
    · cases hg'
      exact hg
    · exact h id g' hg'
  cases step with
  | globals step =>
      cases step with
      | create into => exact hinsert .nil
      | copy from' into =>
          simp only [Step.file, GlobalsStep.file]
          cases hfrom : t[from']? with
          | none => exact h
          | some g => exact hinsert (h from' g hfrom)
      | bind into name raw =>
          simp only [Step.file, GlobalsStep.file]
          cases hraw : Address.ofRaw raw with
          | error f => exact h
          | ok a =>
              cases hinto : t[into]? with
              | none => exact h
              | some g =>
                  refine hinsert ?_
                  have hpushed : (g.push name a).history.toList = g.history.toList ++ [(name, a)] :=
                    Array.toList_push
                  rw [hpushed]
                  refine (h into g hinto).append ?_
                  intro b hb
                  cases List.mem_singleton.1 hb
                  exact Address.exact_of_ofRaw hraw
      | _ => exact h
  | drop kind other =>
      cases kind with
      | globals => exact fun id g hg => h id g (Lookup.getElem?_of_erase hg)
      | _ => exact h
  | _ => exact h

/-! ## What moves and scripts keep -/

/-- Further exact bindings keep every history exact. -/
theorem exact_history_bindAll {w : World} {root : Ref Globals} (hlive : w.Live root)
    (h : ∀ r, ExactBindings (w.globals r).history.toList) (hbindings : ExactBindings bindings)
    (r : Ref Globals) : ExactBindings ((w.bindAll root bindings).globals r).history.toList := by
  rw [history_bindAll hlive]
  refine (h r).append ?_
  split
  · exact hbindings
  · exact .nil

theorem exact_history_newRoot {w : World} {g : Globals}
    (h : ∀ r, ExactBindings (w.globals r).history.toList) (hg : ExactBindings g.history.toList)
    (r : Ref Globals) : ExactBindings ((w.newRoot g).2.globals r).history.toList := by
  rw [history_newRoot]
  refine (h r).append ?_
  split
  · exact hg
  · exact .nil

/-- The frames behind environments gain exact addresses only. -/
theorem HoldsExact.roots_of_moves (h : m.HoldsExact) (hm : m.Valid) (hmove : m.Moves step m')
    (hroom : m'.Roomy) :
    ∀ r : Ref Globals, ExactBindings (m'.world.globals r).history.toList := by
  cases hmove with
  | still _ hworld => exact hworld ▸ h.roots
  | stored _ _ _ _ => exact h.roots
  | assigned _ _ _ _ _ => exact h.roots
  | opened => exact exact_history_newRoot h.roots .nil
  | @defined step id s store hbinder hs hstore =>
      -- The new names are bound to cells of the grown store, which has room as all stores have.
      have hsize := hroom.sessions id { s with store } (by
        simp [withSession, withBindings])
      exact exact_history_bindAll (hm.sessionLive _ _ hs) h.roots
        (exact_bindingsIn hbinder (hstore ▸ hsize))
  | bound he ha =>
      refine exact_history_bindAll (hm.envLive _ _ he) h.roots ?_
      intro b hb
      cases List.mem_singleton.1 hb
      exact Address.exact_of_ofRaw ha
  | found _ => exact h.roots
  | detached hdetaches => exact exact_history_newRoot h.roots (h.of_detaches hdetaches)
  | entered _ _ _ _ _ _ => exact h.roots
  | nested _ _ _ _ => exact h.roots
  | closed => exact h.roots
  | released => exact h.roots

section Environments

variable (h : ∀ (x : String) (f : Env), m.envs.get? x = some f → ExactFrames f)
include h

theorem exactFrames_withEnv (hm : m.Valid) (he : m.Admits e) (hframes : ExactFrames e)
    (into : String) :
    ∀ (x : String) (f : Env), (m.withEnv into e).envs.get? x = some f → ExactFrames f := by
  intro x f hf
  rw [hm.get?_withEnv he] at hf
  split at hf
  · cases hf
    exact hframes
  · exact h x f hf

/-- Environments stay exact when frames are built from exact bindings. -/
theorem exactFrames_withFrames (hm : m.Valid) (he : m.Admits e) (hframes : ExactFrames e)
    (hbindings : ExactBindings bindings) (into : String) (count : Nat) :
    ∀ (x : String) (f : Env), (m.withFrames into e bindings count).envs.get? x = some f →
      ExactFrames f := by
  intro x f hf
  rw [hm.get?_withFrames he] at hf
  split at hf
  · cases hf
    intro g hg
    rcases List.mem_append.1 hg with hnew | hold
    · exact (bindings_of_mem_stacked hnew).1 ▸ hbindings
    · exact hframes g hold
  · exact h x f hf

end Environments

/-- The environments in registers gain exact addresses only. -/
theorem HoldsExact.envs_of_moves (h : m.HoldsExact) (hm : m.Valid) (hmove : m.Moves step m')
    (hroom : m'.Roomy) :
    ∀ (x : String) (e : Env), m'.envs.get? x = some e → ExactFrames e := by
  cases hmove with
  | still _ _ _ henvs => exact henvs ▸ h.envs
  | stored _ _ _ _ => exact h.envs
  | assigned _ _ _ _ _ => exact h.envs
  | opened => exact h.envs
  | defined _ _ _ => exact h.envs
  | bound _ _ => exact h.envs
  | found hfinds =>
      exact exactFrames_withEnv h.envs hm (hm.admits_of_finds hfinds) (h.of_finds hfinds) _
  | @detached step into g hdetaches =>
      have hvalid := hm.withRoot (hm.indexed_of_detaches hdetaches)
      have hadmits : (m.withRoot g).Admits (.ofRoot (m.world.newRoot g).1) :=
        .ofRoot (m.world.live_newRoot g)
      have henvs : ∀ (y : String) (f : Env), (m.withRoot g).envs.get? y = some f →
          ExactFrames f := h.envs
      exact exactFrames_withEnv henvs hvalid hadmits (exactFrames_ofRoot _) into
  | @entered id x into names values s e store bindings hs he _ _ hstore hbindings =>
      -- The cells of the values are cells of the store that the session has afterwards.
      have hsize := hroom.sessions id { s with store } (by simp [withSession, withFrames])
      have hnew : ExactBindings bindings :=
        hbindings ▸ .of_covers (s.store.covers_allocated names values) (hstore ▸ hsize)
      have hold := hm.admits he
      have hadmits : (m.withSession id { s with store }).Admits e :=
        ⟨hold.fits, hold.below, hold.live⟩
      have henvs : ∀ (y : String) (f : Env),
          (m.withSession id { s with store }).envs.get? y = some f → ExactFrames f := h.envs
      exact exactFrames_withFrames henvs (hm.withStore hs store) hadmits (h.envs x e he) hnew into 1
  | @nested x into names raws count e bindings addresses he haddresses hbindings _ =>
      have hnew : ExactBindings bindings :=
        hbindings ▸ .zip names (Address.exact_of_mapM haddresses)
      exact exactFrames_withFrames h.envs hm (hm.admits he) (h.envs x e he) hnew into count
  | closed => exact h.envs
  | released =>
      intro y e he
      rw [hm.get?_released] at he
      split at he
      · cases he
      · exact h.envs y e he

theorem HoldsExact.empty : HoldsExact {} where
  roots := fun _ => .nil
  envs := by
    intro x e he
    simp at he
  standing := by
    intro id g hg
    simp at hg

/-- One step keeps all bound addresses exact, if it leaves the stores with room. -/
theorem HoldsExact.next (h : m.HoldsExact) (hm : m.Valid) (hroom : (m.next step).Roomy) :
    (m.next step).HoldsExact := by
  have hstanding : ∀ (id : String) (g : Globals), (m.next step).globals[id]? = some g →
      ExactBindings g.history.toList := by
    rw [m.globals_next step]
    exact exact_file h.standing step
  rcases m.reply_cases step with ⟨-, -, hsame⟩ | ⟨-, -, hmove⟩
  · rw [hsame]
    exact h
  · exact ⟨h.roots_of_moves hm hmove hroom, h.envs_of_moves hm hmove hroom, hstanding⟩

theorem RoomyAlong.first {steps : List Step} (h : m.RoomyAlong steps) : m.Roomy := by
  cases steps with
  | nil => exact h
  | cons step rest => exact h.1

/-- A script that always has room ends with room. -/
theorem RoomyAlong.last (steps : List Step) :
    ∀ {m : Machine}, m.RoomyAlong steps → (m.last steps).Roomy := by
  induction steps with
  | nil =>
      intro m h
      exact h
  | cons step rest ih =>
      intro m h
      exact ih h.2

/-- A script binds exact addresses only, if its stores have room all the time. -/
theorem HoldsExact.last (steps : List Step) : ∀ {m : Machine}, m.HoldsExact → m.Valid →
    m.RoomyAlong steps → (m.last steps).HoldsExact := by
  induction steps with
  | nil =>
      intro m h _ _
      exact h
  | cons step rest ih =>
      intro m h hm hroom
      exact ih (h.next hm hroom.2.first) (hm.next step) hroom.2

/-! ## Addresses that are found -/

/-- What a name means anywhere is an exact address. -/
theorem HoldsExact.exact_of_find (h : m.HoldsExact) (hm : m.Valid) (he : m.envs.get? x = some e)
    {name : String} (hfind : m.world.find e name = .ok a) : a.Exact := by
  unfold World.find at hfind
  cases hinner : e.find? name with
  | some b =>
      rw [hinner] at hfind
      cases hfind
      rcases List.exists_of_findSome?_eq_some hinner with ⟨f, hf, hfound⟩
      exact (h.envs x e he f hf).exact_of_lookup hfound
  | none =>
      rw [hinner] at hfind
      exact (h.roots e.root).exact_of_find (hm.indexed e.root) hfind

end Script.Machine

end ScopedStore
