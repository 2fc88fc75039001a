import ScopedStore.Proofs.Provenance.Ledger

/-!
# Identities and births

A machine tells frames apart by slots and numbers, the ledger by the steps that created them.
`Tracks` says that the two go together: each identity in use has a birth of its own, and the ledger
is the machine read through the births. A fresh identity is born at the step that takes it, later
than everything before, so every move keeps the relation with the births extended.
-/

namespace ScopedStore.Script

/-- The step that created each global frame, by slot, and the step and place at which each nested
frame was built, by number. -/
structure Births where
  root : Nat → Nat
  frame : Nat → Nat × Nat

namespace Births

def lineage (b : Births) (e : Env) : Lineage :=
  ⟨b.root e.root.slot, e.frames.map fun f => b.frame f.id⟩

def withRoot (b : Births) (slot now : Nat) : Births :=
  { b with root := fun i => if i = slot then now else b.root i }

/-- Nested frames are born, numbered from `first` on. -/
def withFrames (b : Births) (first now : Nat) : Births :=
  { b with frame := fun i => if i < first then b.frame i else (now, i - first) }

variable {b : Births} {first now : Nat}

theorem lineage_ofRoot (b : Births) (r : Ref Globals) :
    b.lineage (.ofRoot r) = ⟨b.root r.slot, []⟩ := rfl

/-- A new global frame gives no old environment another lineage. -/
theorem lineage_withRoot {e : Env} {slot : Nat} (h : e.root.slot ≠ slot) :
    (b.withRoot slot now).lineage e = b.lineage e := by
  simp [lineage, withRoot, h]

/-- New nested frames give no old environment another lineage. -/
theorem lineage_withFrames (b : Births) (now : Nat) {e : Env} (h : ∀ f ∈ e.frames, f.id < first) :
    (b.withFrames first now).lineage e = b.lineage e := by
  have hframes : e.frames.map (fun f => (b.withFrames first now).frame f.id) =
      e.frames.map fun f => b.frame f.id := by
    apply List.map_congr_left
    intro f hf
    exact if_pos (h f hf)
  unfold lineage
  rw [hframes]
  rfl

/-- The frames that one step builds are born at this step, each at its place. -/
theorem map_stacked (b : Births) (bindings : List (String × Address)) (first now n : Nat) :
    (Env.stacked bindings first n).map (fun f => (b.withFrames first now).frame f.id) =
      Lineage.layers now n := by
  induction n with
  | zero => rfl
  | succ n ih =>
      -- The number of a new frame, counted from `first` on, is its place in the step.
      have hnew : ¬ first + n < first := Nat.not_lt.2 (Nat.le_add_right first n)
      have hplace : (b.withFrames first now).frame (first + n) = (now, n) := by
        simp only [withFrames, if_neg hnew, Nat.add_sub_cancel_left]
      simp only [Env.stacked, List.map_cons, hplace, ih, Lineage.layers]

/-- An environment on which a step builds frames has its lineage extended by them. -/
theorem lineage_stacked {e : Env} (h : ∀ f ∈ e.frames, f.id < first)
    (bindings : List (String × Address)) (n : Nat) :
    (b.withFrames first now).lineage
        { e with frames := Env.stacked bindings first n ++ e.frames } =
      (b.lineage e).extend now n := by
  have hbase := congrArg Lineage.frames (lineage_withFrames b now h)
  have hframes : (Env.stacked bindings first n ++ e.frames).map
      (fun f => (b.withFrames first now).frame f.id) =
        Lineage.layers now n ++ e.frames.map fun f => b.frame f.id := by
    rw [List.map_append, map_stacked]
    exact congrArg (Lineage.layers now n ++ ·) hbase
  exact congrArg (Lineage.mk (b.root e.root.slot)) hframes

end Births

namespace Machine

/-- The ledger is the machine read through the births, which tell all identities in use apart. -/
structure Tracks (m : Machine) (l : Ledger) (now : Nat) (b : Births) : Prop where
  sessions : ∀ id : String, l.sessions[id]? = m.sessions[id]?.map fun s => b.root s.root.slot
  envs : ∀ x : String, l.envs[x]? = (m.envs.get? x).map b.lineage
  rootInj : ∀ r s : Ref Globals, m.world.Live r → m.world.Live s →
    b.root r.slot = b.root s.slot → r = s
  rootLt : ∀ r : Ref Globals, m.world.Live r → b.root r.slot < now
  frameInj : ∀ i j : Nat, i < m.world.frameCount → j < m.world.frameCount →
    b.frame i = b.frame j → i = j
  frameLt : ∀ i : Nat, i < m.world.frameCount → (b.frame i).1 < now

theorem tracks_empty (b : Births) : Tracks {} {} 0 b where
  sessions := by
    intro id
    simp
  envs := by
    intro x
    simp
  rootInj := by
    intro r s hr _ _
    exact absurd hr (Nat.not_lt_zero _)
  rootLt := by
    intro r hr
    exact absurd hr (Nat.not_lt_zero _)
  frameInj := by
    intro i j hi _ _
    exact absurd hi (Nat.not_lt_zero _)
  frameLt := by
    intro i hi
    exact absurd hi (Nat.not_lt_zero _)

variable {m : Machine} {l : Ledger} {now : Nat} {b : Births} {e : Env}

namespace Tracks

theorem later (h : Tracks m l now b) {now' : Nat} (hle : now ≤ now') : Tracks m l now' b :=
  { h with
    rootLt := fun r hr => Nat.lt_of_lt_of_le (h.rootLt r hr) hle
    frameLt := fun i hi => Nat.lt_of_lt_of_le (h.frameLt i hi) hle }

/-- The ledger has the birth of the global frame of every session. -/
theorem session_entry (h : Tracks m l now b) {id : String} {s : Session}
    (hs : m.sessions[id]? = some s) : l.sessions[id]? = some (b.root s.root.slot) := by
  rw [h.sessions, hs]
  rfl

/-- The ledger has the lineage of every environment. -/
theorem env_entry (h : Tracks m l now b) {x : String} (he : m.envs.get? x = some e) :
    l.envs[x]? = some (b.lineage e) := by
  rw [h.envs, he]
  rfl

/-- What is derived from an environment is entered under what is derived from its lineage. -/
theorem put_map (h : Tracks m l now b) {x : String} (he : m.envs.get? x = some e)
    (f : Lineage → Lineage) (into : String) :
    l.put into (l.envs[x]?.map f) = l.put into (some (f (b.lineage e))) := by
  rw [h.env_entry he]
  rfl

/-! ## Registers -/

/-- A session in a register is entered by the birth of its global frame. -/
theorem withSession (h : Tracks m l now b) (id : String) (s : Session) :
    Tracks (m.withSession id s)
      { l with sessions := l.sessions.insert id (b.root s.root.slot) } now b :=
  { h with
    sessions := by
      intro other
      change (l.sessions.insert id (b.root s.root.slot))[other]? =
        ((m.sessions.insert id s)[other]?).map fun s => b.root s.root.slot
      rw [Lookup.getElem?_insert, Lookup.getElem?_insert]
      split
      · rfl
      · exact h.sessions other }

/-- A session whose store has changed is known by the same birth. -/
theorem withStore (h : Tracks m l now b) {id : String} {s : Session}
    (hs : m.sessions[id]? = some s) (store : Store) :
    Tracks (m.withSession id { s with store }) l now b := by
  have hentry : l.sessions[id]? = some (b.root s.root.slot) := h.session_entry hs
  -- Entering the session again under the birth that it has writes nothing new.
  have hset := h.withSession id { s with store }
  rw [Lookup.insert_eq_self hentry] at hset
  exact hset

/-- An environment in a register is entered by its lineage. -/
theorem withEnv (h : Tracks m l now b) (hm : m.Valid) (hadmits : m.Admits e) (into : String) :
    Tracks (m.withEnv into e) (l.put into (some (b.lineage e))) now b :=
  { h with
    envs := by
      intro x
      rw [hm.get?_withEnv hadmits]
      change (l.envs.insert into (b.lineage e))[x]? = _
      rw [Lookup.getElem?_insert]
      split
      · rfl
      · exact h.envs x }

theorem closed (h : Tracks m l now b) (id : String) :
    Tracks { m with sessions := m.sessions.erase id } { l with sessions := l.sessions.erase id }
      now b :=
  { h with
    sessions := by
      intro other
      change (l.sessions.erase id)[other]? =
        ((m.sessions.erase id)[other]?).map fun s => b.root s.root.slot
      rw [Lookup.getElem?_erase, Lookup.getElem?_erase]
      split
      · rfl
      · exact h.sessions other }

theorem released (h : Tracks m l now b) (hm : m.Valid) (x : String) :
    Tracks { m with envs := m.envs.erase x } { l with envs := l.envs.erase x } now b :=
  { h with
    envs := by
      intro y
      change (l.envs.erase x)[y]? = ((m.envs.erase x).get? y).map b.lineage
      rw [Lookup.getElem?_erase, hm.get?_released]
      split
      · rfl
      · exact h.envs y }

/-! ## Frames -/

/-- What a global frame binds is not in the ledger. -/
theorem withBindings (h : Tracks m l now b) (r : Ref Globals)
    (bindings : List (String × Address)) : Tracks (m.withBindings r bindings) l now b := by
  have hlive : ∀ s : Ref Globals, (m.withBindings r bindings).world.Live s → m.world.Live s := by
    intro s hs
    change s.slot < (m.world.bindAll r bindings).roots.contents.size at hs
    rw [World.size_roots_bindAll] at hs
    exact hs
  have hcount : (m.withBindings r bindings).world.frameCount = m.world.frameCount :=
    World.frameCount_bindAll r bindings m.world
  refine ⟨h.sessions, h.envs, ?_, ?_, ?_, ?_⟩
  · intro s t hs ht
    exact h.rootInj s t (hlive s hs) (hlive t ht)
  · intro s hs
    exact h.rootLt s (hlive s hs)
  · rw [hcount]
    exact h.frameInj
  · rw [hcount]
    exact h.frameLt

/-- A global frame is born at the present step: its birth is later than all others. -/
theorem withRoot (h : Tracks m l now b) (hm : m.Valid) (g : Globals) :
    Tracks (m.withRoot g) l (now + 1) (b.withRoot (m.world.newRoot g).1.slot now) := by
  have hne : ∀ r : Ref Globals, m.world.Live r → r.slot ≠ (m.world.newRoot g).1.slot :=
    fun r hr => Nat.ne_of_lt hr
  -- Global frames that existed keep their births, and the new one is the only further one.
  have hold : ∀ r : Ref Globals, m.world.Live r →
      (b.withRoot (m.world.newRoot g).1.slot now).root r.slot = b.root r.slot :=
    fun r hr => if_neg (hne r hr)
  have hborn : (b.withRoot (m.world.newRoot g).1.slot now).root (m.world.newRoot g).1.slot = now :=
    if_pos rfl
  have hcases : ∀ r : Ref Globals, (m.withRoot g).world.Live r →
      m.world.Live r ∨ r = (m.world.newRoot g).1 := by
    intro r hr
    change r.slot < (m.world.newRoot g).2.roots.contents.size at hr
    rw [World.size_roots_newRoot] at hr
    rcases Nat.lt_succ_iff_lt_or_eq.1 hr with hlt | heq
    · exact .inl hlt
    · exact .inr (Ref.ext heq)
  refine ⟨?_, ?_, ?_, ?_, h.frameInj, fun i hi => Nat.lt_succ_of_lt (h.frameLt i hi)⟩
  · intro id
    rw [h.sessions]
    change m.sessions[id]?.map _ = m.sessions[id]?.map _
    cases hs : m.sessions[id]? with
    | none => rfl
    | some s => exact congrArg some (hold s.root (hm.sessionLive id s hs)).symm
  · intro x
    rw [h.envs]
    change (m.envs.get? x).map _ = (m.envs.get? x).map _
    cases he : m.envs.get? x with
    | none => rfl
    | some e => exact congrArg some (Births.lineage_withRoot (hne e.root (hm.envLive x e he))).symm
  · intro r s hr hs hbirth
    -- An old birth lies before `now` and the new one at `now`, so they cannot be the same.
    rcases hcases r hr with hr | hr <;> rcases hcases s hs with hs | hs
    · rw [hold r hr, hold s hs] at hbirth
      exact h.rootInj r s hr hs hbirth
    · rw [hold r hr, hs, hborn] at hbirth
      exact absurd hbirth (Nat.ne_of_lt (h.rootLt r hr))
    · rw [hold s hs, hr, hborn] at hbirth
      exact absurd hbirth.symm (Nat.ne_of_lt (h.rootLt s hs))
    · exact hr.trans hs.symm
  · intro r hr
    rcases hcases r hr with hr | hr
    · rw [hold r hr]
      exact Nat.lt_succ_of_lt (h.rootLt r hr)
    · rw [hr, hborn]
      exact Nat.lt_succ_self now

/-- Frames that are numbered next are born at the present step, each at a place of its own. -/
theorem skip (h : Tracks m l now b) (hm : m.Valid) (n : Nat) :
    Tracks { m with world := { m.world with frameCount := m.world.frameCount + n } } l (now + 1)
      (b.withFrames m.world.frameCount now) := by
  let births := b.withFrames m.world.frameCount now
  have hold : ∀ i : Nat, i < m.world.frameCount → births.frame i = b.frame i :=
    fun i hi => if_pos hi
  have hborn : ∀ i : Nat, ¬ i < m.world.frameCount →
      births.frame i = (now, i - m.world.frameCount) := fun i hi => if_neg hi
  refine ⟨h.sessions, ?_, h.rootInj, fun r hr => Nat.lt_succ_of_lt (h.rootLt r hr), ?_, ?_⟩
  · intro x
    rw [h.envs]
    change (m.envs.get? x).map _ = (m.envs.get? x).map _
    cases he : m.envs.get? x with
    | none => rfl
    | some e => exact congrArg some (Births.lineage_withFrames b now (hm.admits he).below).symm
  · intro i j _ _ hbirth
    change births.frame i = births.frame j at hbirth
    -- Old frames by the relation, new ones by their places, and never an old one with a new one.
    by_cases hi : i < m.world.frameCount <;> by_cases hj : j < m.world.frameCount
    · rw [hold i hi, hold j hj] at hbirth
      exact h.frameInj i j hi hj hbirth
    · rw [hold i hi, hborn j hj] at hbirth
      exact absurd (congrArg Prod.fst hbirth) (Nat.ne_of_lt (h.frameLt i hi))
    · rw [hborn i hi, hold j hj] at hbirth
      exact absurd (congrArg Prod.fst hbirth).symm (Nat.ne_of_lt (h.frameLt j hj))
    · rw [hborn i hi, hborn j hj] at hbirth
      have hplace : i - m.world.frameCount = j - m.world.frameCount := congrArg Prod.snd hbirth
      omega
  · intro i _
    change (births.frame i).1 < now + 1
    by_cases hi : i < m.world.frameCount
    · rw [hold i hi]
      exact Nat.lt_succ_of_lt (h.frameLt i hi)
    · rw [hborn i hi]
      exact Nat.lt_succ_self now

/-- Frames that are built now are entered as born now. -/
theorem withFrames (h : Tracks m l now b) (hm : m.Valid) (hadmits : m.Admits e) (into : String)
    (bindings : List (String × Address)) (n : Nat) :
    Tracks (m.withFrames into e bindings n) (l.put into (some ((b.lineage e).extend now n)))
      (now + 1) (b.withFrames m.world.frameCount now) := by
  have hnamed := (h.skip hm n).withEnv (hm.skip n) (hm.admits_stacked hadmits bindings n) into
  rw [Births.lineage_stacked hadmits.below] at hnamed
  exact hnamed

end Tracks

/-! ## Moves -/

/-- A step that changes nothing of sessions and environments writes nothing. -/
theorem record_of_quiet {step : Step} (h : step.quiet = true) : l.record now step = l := by
  cases step with
  | session step =>
      cases step with
      | lookup _ _ _ => rfl
      | _ => cases h
  | env step =>
      cases step <;> first | rfl | cases h
  | globals step =>
      cases step <;> first | rfl | cases h
  | drop kind _ =>
      cases kind <;> first | rfl | cases h
  | _ => rfl

theorem record_of_binder {step : SessionStep} {id : String} (h : step.binder? = some id) :
    l.record now (.session step) = l := by
  cases step <;> first | rfl | cases h

variable {step : Step} {into : String}

/-- An environment that was found is entered by the lineage that it has already. -/
theorem Finds.record (h : m.Finds step into e) (ht : Tracks m l now b) :
    l.record now step = l.put into (some (b.lineage e)) := by
  cases h with
  | own hs => exact Ledger.record_globalEnv (ht.session_entry hs) now into
  | copy he => exact congrArg (l.put into) (ht.env_entry he)
  | global he => exact ht.put_map he (fun d => ⟨d.root, []⟩) into
  | enclosing he => exact ht.put_map he (fun d => ⟨d.root, d.frames.tail⟩) into

/-- A detached global frame is entered as born now. -/
theorem Detaches.record {g : Globals} (h : m.Detaches step into g) :
    l.record now step = l.put into (some ⟨now, []⟩) := by
  cases h <;> rfl

/-- Whatever a step does, the ledger follows it, with births for what is new. -/
theorem Moves.tracks {m' : Machine} (h : m.Moves step m') (hm : m.Valid) (ht : Tracks m l now b) :
    ∃ b', Tracks m' (l.record now step) (now + 1) b' := by
  have hlater : now ≤ now + 1 := Nat.le_succ now
  have hborn : ∀ slot : Nat, (b.withRoot slot now).root slot = now := fun _ => if_pos rfl
  cases h with
  | still hquiet hworld hsessions henvs _ =>
      -- A quiet step has nothing to write, and what it is compared with is as before.
      rw [record_of_quiet hquiet]
      have htracks : Tracks m' l now b := by
        refine ⟨?_, ?_, ?_, ?_, ?_, ?_⟩
        · rw [hsessions]
          exact ht.sessions
        · rw [henvs]
          exact ht.envs
        · rw [hworld]
          exact ht.rootInj
        · rw [hworld]
          exact ht.rootLt
        · rw [hworld]
          exact ht.frameInj
        · rw [hworld]
          exact ht.frameLt
      exact ⟨b, htracks.later hlater⟩
  | stored _ _ hs => exact ⟨b, (ht.withStore hs _).later hlater⟩
  | assigned hs _ _ => exact ⟨b, (ht.withStore hs _).later hlater⟩
  | @opened into _ =>
      have hopened := (ht.withRoot hm {}).withSession into { root := (m.world.newRoot {}).1 }
      rw [hborn] at hopened
      exact ⟨_, hopened⟩
  | defined hbinder hs =>
      rw [record_of_binder hbinder]
      exact ⟨b, ((ht.withStore hs _).withBindings _ _).later hlater⟩
  | bound _ _ => exact ⟨b, (ht.withBindings _ _).later hlater⟩
  | found hfinds =>
      rw [hfinds.record ht]
      exact ⟨b, (ht.withEnv hm (hm.admits_of_finds hfinds) _).later hlater⟩
  | @detached _ into g hdetaches =>
      have hdetached := (ht.withRoot hm g).withEnv (hm.withRoot (hm.indexed_of_detaches hdetaches))
        (.ofRoot (m.world.live_newRoot g)) into
      rw [Births.lineage_ofRoot, hborn] at hdetached
      rw [hdetaches.record]
      exact ⟨_, hdetached⟩
  | @entered id x into names values s e store bindings hs he howns =>
      have hadmits := hm.admits he
      have hentered := (ht.withStore hs store).withFrames (hm.withStore hs store)
        ⟨hadmits.fits, hadmits.below, hadmits.live⟩ into bindings 1
      have hrecord : l.record now (.session (.enter id x names values into)) =
          l.put into (some ((b.lineage e).extend now 1)) :=
        ht.put_map he (fun d => d.extend now 1) into
      rw [hrecord]
      exact ⟨_, hentered⟩
  | @nested x into names raws count e bindings _ he =>
      have hrecord : l.record now (.env (.nest names raws x count into)) =
          l.put into (some ((b.lineage e).extend now count)) :=
        ht.put_map he (fun d => d.extend now count) into
      rw [hrecord]
      exact ⟨_, ht.withFrames hm (hm.admits he) into bindings count⟩
  | closed => exact ⟨b, (ht.closed _).later hlater⟩
  | released => exact ⟨b, (ht.released hm _).later hlater⟩

/-- The ledger of a script follows the machine to the end. -/
theorem Tracks.recorded (steps : List Step) :
    ∀ {m : Machine} {l : Ledger} {now : Nat} {b : Births}, m.Valid → Tracks m l now b →
      ∃ b', Tracks (m.last steps) (m.recorded now l steps) (now + steps.length) b' := by
  -- The births grow along the run, so they are found anew after each step.
  induction steps with
  | nil =>
      intro m l now b _ ht
      exact ⟨b, ht⟩
  | cons step rest ih =>
      intro m l now b hm ht
      have hnext : ∃ b', Tracks (m.next step) (m.noted now l step) (now + 1) b' := by
        rcases m.reply_cases step with ⟨refusal, hreply, hsame⟩ | ⟨a, hreply, hmove⟩
        · rw [noted_of_refused hreply, hsame]
          exact ⟨b, ht.later (Nat.le_succ now)⟩
        · rw [noted_of_ok hreply]
          exact hmove.tracks hm ht
      rcases hnext with ⟨b₁, ht₁⟩
      rcases ih (hm.next step) ht₁ with ⟨b', ht'⟩
      rw [Nat.add_assoc, Nat.add_comm 1] at ht'
      exact ⟨b', ht'⟩

/-- The ledger of a script goes together with the machine that the script leaves. -/
theorem exists_tracks (script : List Step) :
    ∃ b, Tracks (({} : Machine).last script) (ledger script) script.length b := by
  have hempty := tracks_empty ⟨fun i => i, fun i => (i, i)⟩
  rcases hempty.recorded script valid_empty with ⟨b, ht⟩
  rw [Nat.zero_add] at ht
  exact ⟨b, ht⟩

end Machine

end ScopedStore.Script
