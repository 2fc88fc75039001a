import ScopedStore.Proofs.Script.Moves
import ScopedStore.Proofs.Table.Names

/-!
# Valid machines

`Machine.Valid` collects what holds of every machine that a script can reach: the table of
environments is sound, registers refer to global frames that exist, no two sessions share a global
frame, and every global frame has an exact index. Each change of a machine keeps it under a
condition of its own, so each move keeps it, and so does every script.
-/

namespace ScopedStore.Script.Machine

open Env Env.Nodes

/-- What the registers of a machine that a script can reach are like. -/
structure Valid (m : Machine) : Prop where
  sound : m.envs.Sound m.world.frameCount []
  sessionLive : ∀ (id : String) (s : Session), m.sessions[id]? = some s → m.world.Live s.root
  envLive : ∀ (x : String) (e : Env), m.envs.get? x = some e → m.world.Live e.root
  apart : ∀ (id other : String) (s t : Session), m.sessions[id]? = some s →
    m.sessions[other]? = some t → s.root = t.root → id = other
  indexed : ∀ r : Ref Globals, (m.world.globals r).Indexed
  standing : m.Standing

/-- An environment that a register can take: its frames are stored already or have fresh numbers,
and its global frame exists. -/
structure Admits (m : Machine) (e : Env) : Prop where
  fits : Fits m.envs.nodes e.root e.frames
  below : ∀ f ∈ e.frames, f.id < m.world.frameCount
  live : m.world.Live e.root

theorem valid_empty : Valid {} where
  sound := Table.sound_empty 0
  sessionLive := by
    intro id s hs
    simp at hs
  envLive := by
    intro x e he
    simp at he
  apart := by
    intro id other s t hs
    simp at hs
  indexed := by
    intro r
    exact Globals.indexed_empty
  standing := by
    intro id g hg
    simp at hg

variable {m : Machine} {e : Env}

/-! ## Environments that a register can take -/

namespace Admits

theorem tail {f : Frame} (h : m.Admits { e with frames := f :: e.frames }) : m.Admits e where
  fits := h.fits.2.2
  below := fun g hg => h.below g (List.mem_cons_of_mem f hg)
  live := h.live

theorem enclosing (h : m.Admits e) {f : Env} (hf : e.enclosing? = some f) : m.Admits f := by
  rcases e with ⟨frames, root⟩
  cases frames with
  | nil => cases hf
  | cons g rest =>
      cases hf
      exact h.tail

theorem ofRoot {r : Ref Globals} (h : m.world.Live r) : m.Admits (.ofRoot r) where
  fits := trivial
  below := fun f hf => by cases hf
  live := h

end Admits

/-- The frames of a stack are numbered one after the other. -/
theorem mem_stacked {bindings : List (String × Address)} {first : Nat} {f : Frame} :
    ∀ {n : Nat}, f ∈ Env.stacked bindings first n → first ≤ f.id ∧ f.id < first + n := by
  intro n
  induction n with
  | zero =>
      intro hf
      cases hf
  | succ n ih =>
      intro hf
      rcases List.mem_cons.1 hf with rfl | hf
      · exact ⟨Nat.le_add_right first n, Nat.lt_succ_self (first + n)⟩
      · exact ⟨(ih hf).1, Nat.lt_succ_of_lt (ih hf).2⟩

/-- Frames with fresh numbers fit on top of any chain that fits. -/
theorem fits_stacked {nodes : Nodes} {root : Ref Globals} {frames : List Frame} {first : Nat}
    (h : Fits nodes root frames) (hfree : ∀ id : Nat, first ≤ id → nodes[id]? = none)
    (hbelow : ∀ f ∈ frames, f.id < first) (bindings : List (String × Address)) (n : Nat) :
    Fits nodes root (Env.stacked bindings first n ++ frames) := by
  -- Each further frame is numbered above all the others, and its number is free.
  induction n with
  | zero => exact h
  | succ n ih =>
      refine ih.cons (hfree _ (Nat.le_add_right first n)) ?_
      intro g hg
      rcases List.mem_append.1 hg with hg | hg
      · exact (mem_stacked hg).2
      · exact Nat.lt_of_lt_of_le (hbelow g hg) (Nat.le_add_right first n)

namespace Valid

theorem admits (h : m.Valid) {x : String} (he : m.envs.get? x = some e) : m.Admits e := by
  rcases (h.sound.get?_eq_some_iff x e).1 he with ⟨site, hentry, hchain⟩
  refine ⟨hchain.fits h.sound.ordered, ?_, h.envLive x e he⟩
  -- The innermost frame is stored, hence numbered below the counter, and so are the ones under it.
  have hrank : site.rank ≤ m.world.frameCount := by
    cases site with
    | root r => exact Nat.zero_le _
    | nested id =>
        have hheld : m.envs.held? (.name x) = some (.nested id) := hentry
        rcases Option.isSome_iff_exists.1 (h.sound.stored (.name x) id hheld) with ⟨node, hnode⟩
        exact h.sound.bounded id node hnode
  intro f hf
  exact Nat.lt_of_lt_of_le (hchain.id_lt_rank h.sound.ordered f hf) hrank

/-- The environments that a machine finds are environments that its registers can take. -/
theorem admits_of_finds (h : m.Valid) {step : Step} {into : String} (hfinds : m.Finds step into e) :
    m.Admits e := by
  cases hfinds with
  | own hs => exact .ofRoot (h.sessionLive _ _ hs)
  | copy he => exact h.admits he
  | global he => exact .ofRoot (h.envLive _ _ he)
  | enclosing he => exact (h.admits he).tail

/-- The contents of a detached frame have an exact index. -/
theorem indexed_of_detaches (h : m.Valid) {step : Step} {into : String} {g : Globals}
    (hdetaches : m.Detaches step into g) : g.Indexed := by
  cases hdetaches with
  | create => exact Globals.indexed_empty
  | copy hg => exact h.standing _ _ hg

/-! ## What each change keeps -/

/-- A machine stays valid when a register gets a session whose global frame no other register has.
-/
theorem withSession (h : m.Valid) {id : String} {s : Session} (hlive : m.world.Live s.root)
    (hapart : ∀ (other : String) (t : Session), m.sessions[other]? = some t → t.root = s.root →
      other = id) : (m.withSession id s).Valid := by
  have hget : ∀ other : String, (m.withSession id s).sessions[other]? =
      if other = id then some s else m.sessions[other]? :=
    fun other => Lookup.getElem?_insert m.sessions id other s
  refine ⟨h.sound, ?_, h.envLive, ?_, h.indexed, h.standing⟩
  · intro other t ht
    rw [hget] at ht
    split at ht
    · cases ht
      exact hlive
    · exact h.sessionLive other t ht
  · intro a b t u ht hu hroot
    rw [hget] at ht hu
    -- Two registers with one root: the new session in both, in one of them, or in neither.
    split at ht <;> split at hu
    · simp_all
    · rename_i ha hb
      cases ht
      exact ha.trans (hapart b u hu hroot.symm).symm
    · rename_i ha hb
      cases hu
      exact (hapart a t ht hroot).trans hb.symm
    · exact h.apart a b t u ht hu hroot

/-- A session whose store has changed is the same session. -/
theorem withStore (h : m.Valid) {id : String} {s : Session} (hs : m.sessions[id]? = some s)
    (store : Store) : (m.withSession id { s with store }).Valid :=
  h.withSession (h.sessionLive id s hs) fun other t ht hroot => h.apart other id t s ht hs hroot

/-- Bindings keep all indices exact. -/
theorem withBindings (h : m.Valid) {r : Ref Globals} (hlive : m.world.Live r)
    (bindings : List (String × Address)) : (m.withBindings r bindings).Valid where
  sound := by
    have hcount : (m.withBindings r bindings).world.frameCount = m.world.frameCount :=
      World.frameCount_bindAll r bindings m.world
    rw [hcount]
    exact h.sound
  sessionLive := fun id s hs => (h.sessionLive id s hs).bindAll r bindings
  envLive := fun x e he => (h.envLive x e he).bindAll r bindings
  apart := h.apart
  indexed := by
    intro s
    have hglobals := World.globals_bindAll r bindings hlive s
    change ((m.world.bindAll r bindings).globals s).Indexed
    rw [hglobals]
    split
    · exact (h.indexed r).pushAll bindings
    · exact h.indexed s
  standing := h.standing

theorem withRoot (h : m.Valid) {g : Globals} (hg : g.Indexed) : (m.withRoot g).Valid where
  sound := h.sound
  sessionLive := fun id s hs => (h.sessionLive id s hs).newRoot g
  envLive := fun x e he => (h.envLive x e he).newRoot g
  apart := h.apart
  indexed := by
    intro r
    change ((m.world.newRoot g).2.globals r).Indexed
    rw [World.globals_newRoot]
    split
    · exact hg
    · exact h.indexed r
  standing := h.standing

/-- A register that takes an environment holds it afterwards, and the others hold what they did. -/
theorem get?_withEnv (h : m.Valid) (he : m.Admits e) (into other : String) :
    (m.withEnv into e).envs.get? other = if other = into then some e else m.envs.get? other :=
  (h.sound.insert into he.fits he.below).2 other

/-- A machine stays valid when a register gets an environment whose frames fit. -/
theorem withEnv (h : m.Valid) (he : m.Admits e) (into : String) : (m.withEnv into e).Valid where
  sound := (h.sound.insert into he.fits he.below).1
  sessionLive := h.sessionLive
  envLive := by
    intro x f hf
    rw [h.get?_withEnv he] at hf
    split at hf
    · cases hf
      exact he.live
    · exact h.envLive x f hf
  apart := h.apart
  indexed := h.indexed
  standing := h.standing

/-- Numbers of frames can be left out. -/
theorem skip (h : m.Valid) (n : Nat) :
    Valid { m with world := { m.world with frameCount := m.world.frameCount + n } } :=
  ⟨h.sound.mono (Nat.le_add_right _ n), h.sessionLive, h.envLive, h.apart, h.indexed, h.standing⟩

/-- Frames that are built on an environment get numbers of which none is in use. -/
theorem admits_stacked (h : m.Valid) (he : m.Admits e) (bindings : List (String × Address))
    (n : Nat) : Admits { m with world := { m.world with frameCount := m.world.frameCount + n } }
      { e with frames := Env.stacked bindings m.world.frameCount n ++ e.frames } where
  fits := by
    refine fits_stacked he.fits ?_ he.below bindings n
    intro id hid
    cases hnode : m.envs.nodes[id]? with
    | none => rfl
    | some node => exact absurd (h.sound.bounded id node hnode) (Nat.not_lt.2 hid)
  below := by
    intro f hf
    rcases List.mem_append.1 hf with hf | hf
    · exact (mem_stacked hf).2
    · exact Nat.lt_of_lt_of_le (he.below f hf) (Nat.le_add_right _ n)
  live := he.live

/-- A machine stays valid when frames are built on an environment that a register could take. -/
theorem withFrames (h : m.Valid) (he : m.Admits e) (into : String)
    (bindings : List (String × Address)) (n : Nat) : (m.withFrames into e bindings n).Valid :=
  (h.skip n).withEnv (h.admits_stacked he bindings n) into

/-- Building frames changes the register that the result goes to and no other. -/
theorem get?_withFrames (h : m.Valid) (he : m.Admits e) (into : String)
    (bindings : List (String × Address)) (n : Nat) (other : String) :
    (m.withFrames into e bindings n).envs.get? other = if other = into then
      some { e with frames := Env.stacked bindings m.world.frameCount n ++ e.frames }
    else m.envs.get? other :=
  (h.skip n).get?_withEnv (h.admits_stacked he bindings n) into other

theorem closed (h : m.Valid) (id : String) :
    Valid { m with sessions := m.sessions.erase id } := by
  refine ⟨h.sound, ?_, h.envLive, ?_, h.indexed, h.standing⟩
  · intro other s hs
    exact h.sessionLive other s (Lookup.getElem?_of_erase hs)
  · intro a b s t hs ht hroot
    exact h.apart a b s t (Lookup.getElem?_of_erase hs) (Lookup.getElem?_of_erase ht) hroot

theorem get?_released (h : m.Valid) (x other : String) :
    (m.envs.erase x).get? other = if other = x then none else m.envs.get? other :=
  (h.sound.erase x).2 other

theorem released (h : m.Valid) (x : String) : Valid { m with envs := m.envs.erase x } := by
  refine ⟨(h.sound.erase x).1, h.sessionLive, ?_, h.apart, h.indexed, h.standing⟩
  intro y e he
  have hold : m.envs.get? y = some e := by
    change (m.envs.erase x).get? y = some e at he
    rw [h.get?_released] at he
    split at he
    · cases he
    · exact he
  exact h.envLive y e hold

end Valid

/-! ## What moves and scripts keep -/

/-- Every move keeps a machine valid. -/
theorem Moves.valid {step : Step} {m' : Machine} (h : m.Moves step m') (hm : m.Valid) :
    m'.Valid := by
  cases h with
  | still _ hworld hsessions henvs hstanding =>
      refine ⟨?_, ?_, ?_, ?_, ?_, hstanding hm.standing⟩
      · rw [henvs, hworld]
        exact hm.sound
      · rw [hsessions, hworld]
        exact hm.sessionLive
      · rw [henvs, hworld]
        exact hm.envLive
      · rw [hsessions]
        exact hm.apart
      · rw [hworld]
        exact hm.indexed
  | stored _ _ hs => exact hm.withStore hs _
  | assigned hs _ _ => exact hm.withStore hs _
  | opened =>
      -- A root that has just been created is the root of no session yet.
      refine (hm.withRoot Globals.indexed_empty).withSession (m.world.live_newRoot {}) ?_
      intro other t ht hroot
      exact absurd hroot ((hm.sessionLive other t ht).ne_newRoot {})
  | defined _ hs => exact (hm.withStore hs _).withBindings (hm.sessionLive _ _ hs) _
  | bound he _ => exact hm.withBindings (hm.envLive _ _ he) _
  | found hfinds => exact hm.withEnv (hm.admits_of_finds hfinds) _
  | detached hdetaches =>
      have hg := hm.indexed_of_detaches hdetaches
      exact (hm.withRoot hg).withEnv (.ofRoot (m.world.live_newRoot _)) _
  | entered hs he _ =>
      have hadmits := hm.admits he
      exact (hm.withStore hs _).withFrames ⟨hadmits.fits, hadmits.below, hadmits.live⟩ _ _ 1
  | nested he => exact hm.withFrames (hm.admits he) _ _ _
  | closed => exact hm.closed _
  | released => exact hm.released _

theorem Valid.next (h : m.Valid) (step : Step) : (m.next step).Valid := by
  rcases m.reply_cases step with ⟨-, -, hsame⟩ | ⟨-, -, hmove⟩
  · rw [hsame]
    exact h
  · exact hmove.valid h

/-- Every script keeps a machine valid. -/
theorem Valid.last (h : m.Valid) (steps : List Step) : (m.last steps).Valid :=
  last_induction (fun _ step hm => hm.next step) steps h

end ScopedStore.Script.Machine
