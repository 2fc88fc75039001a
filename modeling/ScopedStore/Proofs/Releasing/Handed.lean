import ScopedStore.Proofs.History.Kept
import ScopedStore.Proofs.Table.Unlinked

/-!
# Handing a name over

A name that is given to an environment, or freed, lets go of what it held before only at the end.
The table just before is `handed`: it is sound with one holder counted in advance, which is the one
that is let go of. Every step that fills or drops a register goes through such a table.
-/

namespace ScopedStore

namespace Env.Table

open Nodes

/-- The table in which a name has been given to an environment, or to none, while what the name held
before has not been let go of. -/
def handed (t : Table) (name : String) : Option Env → Table
  | some e => { entries := t.entries.insert name e.site, nodes := t.nodes.hold e.root e.frames }
  | none => { t with entries := t.entries.erase name }

def give (t : Table) (name : String) : Option Env → Table
  | some e => t.insert name e
  | none => t.erase name

variable {t : Table} {bound : Nat} {name : String}

/-- Only the name that is given away stands for something else. -/
theorem entries_handed (t : Table) (name : String) (new : Option Env) (other : String) :
    (t.handed name new).entries[other]? =
      if other = name then new.map Env.site else t.entries[other]? := by
  cases new with
  | some e => exact Lookup.getElem?_insert t.entries name other e.site
  | none => exact Lookup.getElem?_erase t.entries name other

/-- Once a name has been handed over, what it held before is released. -/
theorem give_eq_release {site : Site} (hentry : t.entries[name]? = some site) (new : Option Env) :
    t.give name new = (t.handed name new).withNodes
      ((t.handed name new).nodes.release site.rank site) := by
  cases new with
  | some e => simp [give, insert, handed, hentry]
  | none => simp [give, erase, handed, hentry]

namespace Sound

/-- The old holder is still counted when the name has been given away. -/
theorem handed (h : Sound t bound []) (name : String) {new : Option Env}
    (hfits : ∀ e, new = some e → Fits t.nodes e.root e.frames)
    (hbound : ∀ e, new = some e → ∀ f ∈ e.frames, f.id < bound) :
    Sound (t.handed name new) bound ((t.entries[name]?).toList ++ []) := by
  cases new with
  | some e =>
      exact rename (some e.site) (h.hold (hfits e rfl) (hbound e rfl)).1
        (t.entries_handed name (some e))
  | none => exact rename none h (t.entries_handed name none)

/-- What a name holds in the end it held already when the other one was handed over. -/
theorem chain_handed {site : Site} (hentry : t.entries[name]? = some site) {new : Option Env}
    (h : Sound (t.give name new) bound []) {other : String} {e : Env}
    (he : (t.give name new).get? other = some e) :
    (t.handed name new).entries[other]? = some e.site ∧
      Chain (t.handed name new).nodes e.site e := by
  rcases (h.get?_eq_some_iff other e).1 he with ⟨start, hstart, hchain⟩
  rw [← hchain.site_eq, give_eq_release hentry] at hstart hchain
  exact ⟨hstart, hchain.mono (release_within site.rank _ site)⟩

end Sound

end Env.Table

namespace Script

/-- A step that changes no register of environments has none as its target. -/
theorem Step.envTarget?_of_quiet {step : Step} (h : step.quiet = true) :
    step.envTarget? = none := by
  cases step with
  | session step => cases step <;> first | rfl | cases h
  | env step => cases step <;> first | rfl | cases h
  | globals step => cases step <;> first | rfl | cases h
  | drop kind id => cases kind <;> first | rfl | cases h
  | _ => rfl

theorem SessionStep.envTarget?_of_binder {step : SessionStep} {id : String}
    (h : step.binder? = some id) : (Step.session step).envTarget? = none := by
  cases step <;> first | rfl | cases h

namespace Machine

open Env

variable {m m' : Machine} {step : Step} {x : String} {new : Option Env}

/-- A register comes to hold an environment, or none, in place of what it held. -/
structure Hands (m m' : Machine) (x : String) (new : Option Env) : Prop where
  envs : m'.envs = m.envs.give x new
  holds : m'.envs.get? x = new
  /-- The environment could be held when the register was handed over. -/
  sound : Table.Sound (m.envs.handed x new) m'.world.frameCount ((m.envs.entries[x]?).toList ++ [])

/-- Putting an environment into a register hands the register over to it. -/
theorem hands_withEnv (hm : m.Valid) {e : Env} (he : m.Admits e) (x : String) :
    m.Hands (m.withEnv x e) x (some e) where
  envs := rfl
  holds := by simp [hm.get?_withEnv he]
  sound := hm.sound.handed x (fun _ h => Option.some.inj h ▸ he.fits)
    (fun _ h => Option.some.inj h ▸ he.below)

/-- A move whose target is a register of environments hands that register over. -/
theorem Moves.hands (h : m.Moves step m') (hm : m.Valid) (hx : step.envTarget? = some x) :
    ∃ new, m.Hands m' x new := by
  cases h with
  | still hquiet _ _ _ _ => cases (Step.envTarget?_of_quiet hquiet).symm.trans hx
  | stored _ _ _ => cases hx
  | assigned _ _ _ => cases hx
  | opened => cases hx
  | defined hbinder _ => cases (SessionStep.envTarget?_of_binder hbinder).symm.trans hx
  | bound _ _ => cases hx
  | found hfinds =>
      cases hfinds.envTarget.symm.trans hx
      exact ⟨_, hands_withEnv hm (hm.admits_of_finds hfinds) x⟩
  | @detached _ _ g hdetaches =>
      cases hdetaches.envTarget.symm.trans hx
      have hhands := hands_withEnv (hm.withRoot (hm.indexed_of_detaches hdetaches))
        (.ofRoot (m.world.live_newRoot g)) x
      exact ⟨_, hhands.envs, hhands.holds, hhands.sound⟩
  | @entered _ _ _ _ _ _ e store bindings hs hbase _ =>
      cases hx
      have hadmits := hm.admits hbase
      have hstacked := (hm.withStore hs store).admits_stacked
        ⟨hadmits.fits, hadmits.below, hadmits.live⟩ bindings 1
      have hhands := hands_withEnv ((hm.withStore hs store).skip 1) hstacked x
      exact ⟨_, hhands.envs, hhands.holds, hhands.sound⟩
  | @nested _ _ _ _ count _ bindings _ hbase =>
      cases hx
      have hhands := hands_withEnv (hm.skip count)
        (hm.admits_stacked (hm.admits hbase) bindings count) x
      exact ⟨_, hhands.envs, hhands.holds, hhands.sound⟩
  | closed => cases hx
  | released =>
      cases hx
      refine ⟨none, rfl, ?_, hm.sound.handed x ?_ ?_⟩
      · exact (hm.get?_released x x).trans (if_pos rfl)
      · intro e h
        cases h
      · intro e h
        cases h

end Machine

end Script

end ScopedStore
