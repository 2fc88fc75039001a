import ScopedStore.Proofs.Script.Valid

/-!
# Environments stay what they are

Once a register has held an environment, no later step makes its frames mean anything else: frames
that are freed lose their numbers for good, and frames that stay keep their bindings and the frame
under them. So whatever register holds the same frame later holds the same environment, and a
register that no step fills or drops holds what it held.
-/

namespace ScopedStore.Script

/-- The register of environments that a step fills or drops if it succeeds. -/
def Step.envTarget? : Step → Option String
  | .session (.globalEnv _ into) => some into
  | .session (.enter _ _ _ _ into) => some into
  | .env (.create into) => some into
  | .env (.copy _ into) => some into
  | .env (.nest _ _ _ _ into) => some into
  | .env (.global _ into) => some into
  | .env (.enclosing _ into) => some into
  | .globals (.toEnv _ into) => some into
  | .drop .env x => some x
  | _ => none

namespace Machine

open Env Env.Nodes

variable {m m' : Machine} {step : Step} {x into : String} {e : Env}

/-! ## Frames of an environment -/

/-- Every frame of an environment in a register is stored. -/
theorem Valid.isSome_of_mem (h : m.Valid) (he : m.envs.get? x = some e) :
    ∀ f ∈ e.frames, (m.envs.nodes[f.id]?).isSome := by
  rcases (h.sound.get?_eq_some_iff x e).1 he with ⟨site, -, hchain⟩
  exact hchain.isSome_of_mem

/-- Every frame of an environment that a step finds is stored. -/
theorem Finds.isSome_of_mem (h : m.Finds step into e) (hm : m.Valid) :
    ∀ f ∈ e.frames, (m.envs.nodes[f.id]?).isSome := by
  cases h with
  | own _ =>
      intro f hf
      cases hf
  | copy he => exact hm.isSome_of_mem he
  | global _ =>
      intro f hf
      cases hf
  | enclosing he =>
      intro f hf
      exact hm.isSome_of_mem he f (List.mem_cons_of_mem _ hf)

/-- A register holds the environment that it is expected to hold if it holds the same frame. -/
theorem Valid.eq_of_sameFrame (h : m.Valid) (he : m.Admits e) {f : Env}
    (hf : m.envs.get? x = some f) (hsame : f.sameFrame e = true) : f = e := by
  rcases (h.sound.get?_eq_some_iff x f).1 hf with ⟨site, hentry, hchain⟩
  have hsite : site = e.site := hchain.site_eq.symm.trans (of_decide_eq_true hsame)
  subst hsite
  -- The frames still fit, and the innermost one is stored because a register holds it.
  have hexpected : Chain m.envs.nodes e.site e :=
    h.sound.chain_of_fits he.fits fun id hid =>
      h.sound.stored (.name x) id (hentry.trans (congrArg some hid))
  exact hchain.unique hexpected

/-! ## What every step keeps -/

namespace Admits

/-- The environment that a register takes may store frames of its own, but not under numbers that
the environment in question has. -/
theorem withEnv (h : m.Admits e) {other : Env}
    (hstored : ∀ f ∈ e.frames, ∀ g ∈ other.frames, g.id = f.id → (m.envs.nodes[g.id]?).isSome)
    (into : String) : (m.withEnv into other).Admits e where
  fits := (Table.fits_hold h.fits hstored).of_within (m.envs.insert_within into other)
  below := h.below
  live := h.live

theorem withSession (h : m.Admits e) (id : String) (s : Session) :
    (m.withSession id s).Admits e :=
  ⟨h.fits, h.below, h.live⟩

/-- Bindings in a global frame change no nested frame. -/
theorem withBindings (h : m.Admits e) (r : Ref Globals) (bindings : List (String × Address)) :
    (m.withBindings r bindings).Admits e where
  fits := h.fits
  below := by
    have hcount : (m.withBindings r bindings).world.frameCount = m.world.frameCount :=
      World.frameCount_bindAll r bindings m.world
    rw [hcount]
    exact h.below
  live := h.live.bindAll r bindings

theorem withRoot (h : m.Admits e) (g : Globals) : (m.withRoot g).Admits e :=
  ⟨h.fits, h.below, h.live.newRoot g⟩

/-- New frames get numbers above those of any environment that exists already. -/
theorem withFrames (h : m.Admits e) (hm : m.Valid) {base : Env} (hbase : m.envs.get? x = some base)
    (into : String) (bindings : List (String × Address)) (n : Nat) :
    (m.withFrames into base bindings n).Admits e := by
  have hskip : Admits
      { m with world := { m.world with frameCount := m.world.frameCount + n } } e :=
    ⟨h.fits, fun f hf => Nat.lt_of_lt_of_le (h.below f hf) (Nat.le_add_right _ n), h.live⟩
  refine hskip.withEnv ?_ into
  -- A new frame has a number past the counter, and the environment's own frames are below it.
  intro f hf g hg hid
  rcases List.mem_append.1 hg with hnew | hold
  · have habove := (mem_stacked hnew).1
    have hbelow := h.below f hf
    rw [hid] at habove
    exact absurd hbelow (Nat.not_lt.2 habove)
  · exact hm.isSome_of_mem hbase g hold

end Admits

/-- Every move leaves an environment that a register could take as one. -/
theorem Moves.admits (h : m.Moves step m') (hm : m.Valid) (he : m.Admits e) : m'.Admits e := by
  cases h with
  | still _ hworld _ henvs _ =>
      refine ⟨?_, ?_, ?_⟩
      · rw [henvs]
        exact he.fits
      · rw [hworld]
        exact he.below
      · rw [hworld]
        exact he.live
  | stored _ _ _ => exact he.withSession _ _
  | assigned _ _ _ => exact he.withSession _ _
  | opened => exact (he.withRoot {}).withSession _ _
  | defined _ _ => exact (he.withSession _ _).withBindings _ _
  | bound _ _ => exact he.withBindings _ _
  | found hfinds =>
      exact he.withEnv (fun _ _ g hg _ => hfinds.isSome_of_mem hm g hg) _
  | detached _ =>
      exact (he.withRoot _).withEnv (fun _ _ g hg _ => by cases hg) _
  | entered hs hbase _ => exact (he.withSession _ _).withFrames (hm.withStore hs _) hbase _ _ 1
  | nested hbase => exact he.withFrames hm hbase _ _ _
  | closed => exact ⟨he.fits, he.below, he.live⟩
  | released => exact ⟨he.fits.of_within (m.envs.erase_name_within _), he.below, he.live⟩

/-- An environment that could be put into a register can still be put there after any script. -/
theorem Admits.last (steps : List Step) :
    ∀ {m : Machine}, m.Valid → m.Admits e → (m.last steps).Admits e := by
  -- The environment need not be in a register any more: that one could take it is enough.
  induction steps with
  | nil =>
      intro m _ he
      exact he
  | cons step rest ih =>
      intro m hm he
      refine ih (hm.next step) ?_
      rcases m.reply_cases step with ⟨-, -, hsame⟩ | ⟨-, -, hmove⟩
      · rw [hsame]
        exact he
      · exact hmove.admits hm he

/-! ## Registers that no step touches -/

theorem Finds.envTarget (h : m.Finds step into e) : step.envTarget? = some into := by
  cases h <;> rfl

theorem Detaches.envTarget {g : Globals} (h : m.Detaches step into g) :
    step.envTarget? = some into := by
  cases h <;> rfl

/-- A move changes the environment of no register but the step's target. -/
theorem Moves.get?_of_ne (h : m.Moves step m') (hm : m.Valid) (hx : step.envTarget? ≠ some x) :
    m'.envs.get? x = m.envs.get? x := by
  cases h with
  | still _ _ _ henvs _ => rw [henvs]
  | stored _ _ _ => rfl
  | assigned _ _ _ => rfl
  | opened => rfl
  | defined _ _ => rfl
  | bound _ _ => rfl
  | found hfinds =>
      rw [hfinds.envTarget] at hx
      rw [hm.get?_withEnv (hm.admits_of_finds hfinds), if_neg fun h => hx (congrArg some h.symm)]
  | @detached _ into g hdetaches =>
      rw [hdetaches.envTarget] at hx
      have hvalid := hm.withRoot (hm.indexed_of_detaches hdetaches)
      rw [hvalid.get?_withEnv (.ofRoot (m.world.live_newRoot g)),
        if_neg fun h => hx (congrArg some h.symm)]
      rfl
  | @entered id base into names values s e store bindings hs hbase howns =>
      have hadmits := hm.admits hbase
      rw [(hm.withStore hs store).get?_withFrames ⟨hadmits.fits, hadmits.below, hadmits.live⟩,
        if_neg fun h => hx (congrArg some h.symm)]
      rfl
  | nested hbase =>
      rw [hm.get?_withFrames (hm.admits hbase), if_neg fun h => hx (congrArg some h.symm)]
  | closed => rfl
  | released =>
      change (m.envs.erase _).get? x = m.envs.get? x
      rw [hm.get?_released, if_neg fun h => hx (congrArg some h.symm)]

/-- A register keeps its environment for as long as no step fills or drops it. -/
theorem Valid.get?_last (steps : List Step) :
    ∀ {m : Machine}, m.Valid → (∀ step ∈ steps, step.envTarget? ≠ some x) →
      (m.last steps).envs.get? x = m.envs.get? x := by
  induction steps with
  | nil =>
      intro m _ _
      rfl
  | cons step rest ih =>
      intro m hm hx
      have hnext : (m.next step).envs.get? x = m.envs.get? x := by
        rcases m.reply_cases step with ⟨-, -, hsame⟩ | ⟨-, -, hmove⟩
        · rw [hsame]
        · exact hmove.get?_of_ne hm (hx step List.mem_cons_self)
      exact (ih (hm.next step) fun other hother =>
        hx other (List.mem_cons_of_mem step hother)).trans hnext

end Machine

end ScopedStore.Script
