import ScopedStore.Proofs.Isolation.Addressed
import ScopedStore.Proofs.Script.Valid

/-!
# Steps addressed elsewhere

A step that is not addressed to a session leaves it alone: its store, the contents of its global
frame, and the environments rooted there, of which no register gets a new one.
-/

namespace ScopedStore.Script.Machine

/-- What is seen of a session is no more in the second machine than in the first. -/
structure Untouched (session : String) (m m₁ : Machine) : Prop where
  sessions : m₁.sessions[session]? = m.sessions[session]?
  globals : ∀ s : Session, m.sessions[session]? = some s →
    m₁.world.globals s.root = m.world.globals s.root
  envs : ∀ (s : Session) (x : String) (e : Env), m.sessions[session]? = some s →
    m₁.envs.get? x = some e → e.root = s.root → m.envs.get? x = some e

variable {m : Machine} {session : String}

namespace Untouched

theorem refl (session : String) (m : Machine) : Untouched session m m :=
  ⟨rfl, fun _ _ => rfl, fun _ _ _ _ he _ => he⟩

theorem trans {m₁ m₂ : Machine} (h : Untouched session m m₁) (h' : Untouched session m₁ m₂) :
    Untouched session m m₂ where
  sessions := h'.sessions.trans h.sessions
  globals := by
    intro s hs
    have hs₁ : m₁.sessions[session]? = some s := h.sessions.trans hs
    exact (h'.globals s hs₁).trans (h.globals s hs)
  envs := by
    intro s x e hs he hroot
    have hs₁ : m₁.sessions[session]? = some s := h.sessions.trans hs
    exact h.envs s x e hs (h'.envs s x e hs₁ he hroot) hroot

/-- A change of the session in another register does not touch this one. -/
theorem withSession {id : String} (hne : id ≠ session) (t : Session) :
    Untouched session m (m.withSession id t) where
  sessions := by
    change (m.sessions.insert id t)[session]? = m.sessions[session]?
    rw [Lookup.getElem?_insert, if_neg hne.symm]
  globals := fun _ _ => rfl
  envs := fun _ _ _ _ he _ => he

/-- Bindings in another global frame do not touch the session. -/
theorem withBindings {r : Ref Globals} (hlive : m.world.Live r)
    (hne : ∀ s : Session, m.sessions[session]? = some s → r ≠ s.root)
    (bindings : List (String × Address)) : Untouched session m (m.withBindings r bindings) where
  sessions := rfl
  globals := by
    intro s hs
    have hglobals := World.globals_bindAll r bindings hlive s.root
    rw [if_neg (hne s hs).symm] at hglobals
    exact hglobals
  envs := fun _ _ _ _ he _ => he

/-- A new global frame is the root of no session that was there. -/
theorem withRoot (hm : m.Valid) (g : Globals) : Untouched session m (m.withRoot g) where
  sessions := rfl
  globals := by
    intro s hs
    have hglobals := World.globals_newRoot m.world g s.root
    rw [if_neg ((hm.sessionLive session s hs).ne_newRoot g)] at hglobals
    exact hglobals
  envs := fun _ _ _ _ he _ => he

/-- An environment over another global frame does not touch the session, whatever register gets it.
-/
theorem withEnv (hm : m.Valid) {e : Env} (hadmits : m.Admits e)
    (hne : ∀ s : Session, m.sessions[session]? = some s → e.root ≠ s.root) (into : String) :
    Untouched session m (m.withEnv into e) where
  sessions := rfl
  globals := fun _ _ => rfl
  envs := by
    intro s x f hs hf hroot
    rw [hm.get?_withEnv hadmits] at hf
    split at hf
    · cases hf
      exact absurd hroot (hne s hs)
    · exact hf

/-- Frames over another global frame do not touch the session. -/
theorem withFrames (hm : m.Valid) {e : Env} (hadmits : m.Admits e)
    (hne : ∀ s : Session, m.sessions[session]? = some s → e.root ≠ s.root) (into : String)
    (bindings : List (String × Address)) (n : Nat) :
    Untouched session m (m.withFrames into e bindings n) := by
  -- Taking numbers for the new frames is seen by no session, and the rest is storing an
  -- environment.
  have hskip : Untouched session m
      { m with world := { m.world with frameCount := m.world.frameCount + n } } :=
    ⟨rfl, fun _ _ => rfl, fun _ _ _ _ he _ => he⟩
  exact hskip.trans (withEnv (hm.skip n) (hm.admits_stacked hadmits bindings n) hne into)

theorem closed {id : String} (hne : id ≠ session) :
    Untouched session m { m with sessions := m.sessions.erase id } where
  sessions := by
    change (m.sessions.erase id)[session]? = m.sessions[session]?
    rw [Lookup.getElem?_erase, if_neg hne.symm]
  globals := fun _ _ => rfl
  envs := fun _ _ _ _ he _ => he

/-- An empty register has no environment of the session, nor of any other. -/
theorem released (hm : m.Valid) (x : String) :
    Untouched session m { m with envs := m.envs.erase x } where
  sessions := rfl
  globals := fun _ _ => rfl
  envs := by
    intro s y e _ he _
    change (m.envs.erase x).get? y = some e at he
    rw [hm.get?_released] at he
    split at he
    · cases he
    · exact he

end Untouched

/-! ## Moves that are not addressed to a session -/

/-- A session in another register has another global frame. -/
theorem Valid.root_ne (hm : m.Valid) {id : String} {t : Session} (ht : m.sessions[id]? = some t)
    (hne : id ≠ session) (s : Session) (hs : m.sessions[session]? = some s) : t.root ≠ s.root :=
  fun hroot => hne (hm.apart id session t s ht hs hroot)

/-- A step that stores an environment without being addressed to a session stores one that is
rooted elsewhere. -/
theorem Finds.root_ne (hm : m.Valid) {step : Step} {into : String} {e : Env}
    (h : m.Finds step into e) (haddressed : m.addressed session step = false) (s : Session)
    (hs : m.sessions[session]? = some s) : e.root ≠ s.root := by
  cases h with
  | own ht =>
      have hne : _ ≠ session := of_decide_eq_false haddressed
      exact hm.root_ne ht hne s hs
  | copy he => exact root_ne_of_rootedIn haddressed hs he
  | global he =>
      have hne := root_ne_of_rootedIn haddressed hs he
      exact hne
  | enclosing he =>
      have hne := root_ne_of_rootedIn haddressed hs he
      exact hne

/-- A session that is called with an environment of its own without the step being addressed to
the session in question is another session. -/
theorem ne_of_call {id x : String} {t : Session} {e : Env} (ht : m.sessions[id]? = some t)
    (he : m.envs.get? x = some e) (howns : t.owns e = true)
    (haddressed : (decide (id = session) && m.rootedIn session x) = false) : id ≠ session := by
  rintro rfl
  have hrooted : m.rootedIn id x = true :=
    rootedIn_eq_true_iff.2 ⟨t, e, ht, he, Session.owns_iff.1 howns⟩
  simp [hrooted] at haddressed

/-- No change that a step makes elsewhere touches the session. -/
theorem Moves.untouched {step : Step} {m₁ : Machine} (h : m.Moves step m₁) (hm : m.Valid)
    (haddressed : m.addressed session step = false) : Untouched session m m₁ := by
  cases h with
  | still _ hworld hsessions henvs _ =>
      refine ⟨?_, ?_, ?_⟩
      · rw [hsessions]
      · intro s _
        rw [hworld]
      · intro s x e _ he _
        rw [← henvs]
        exact he
  | @stored change id s store htarget hnone hs =>
      refine .withSession ?_ _
      rintro rfl
      -- A step that changes the store of this session works on it, and so would be addressed to it.
      have hsubject : change.subject? = some id := by
        cases change <;> first | exact htarget | cases htarget
      have hcontains : m.stores.contains id = false := by
        simp [Std.ExtTreeMap.contains_eq_isSome_getElem?, hnone]
      simp [addressed, hsubject, hcontains] at haddressed
  | assigned hs he howns => exact .withSession (ne_of_call hs he howns haddressed) _
  | opened =>
      have hne : _ ≠ session := of_decide_eq_false haddressed
      exact (Untouched.withRoot hm {}).trans (.withSession hne _)
  | @defined change id s store hbinder hs =>
      -- Binding names on a session is addressed to it, so the names went to another one.
      have hne : id ≠ session := by
        cases change with
        | bind _ _ _ =>
            cases hbinder
            exact of_decide_eq_false haddressed
        | define _ _ _ =>
            cases hbinder
            exact of_decide_eq_false haddressed
        | defineMany _ _ _ =>
            cases hbinder
            exact of_decide_eq_false haddressed
        | _ => cases hbinder
      have hsame : (m.withSession id { s with store }).sessions[session]? = m.sessions[session]? :=
        (Untouched.withSession hne { s with store }).sessions
      have hlive : (m.withSession id { s with store }).world.Live s.root := hm.sessionLive id s hs
      refine (Untouched.withSession hne _).trans (.withBindings hlive ?_ _)
      intro t ht
      exact hm.root_ne hs hne t (hsame.symm.trans ht)
  | bound he _ =>
      exact .withBindings (hm.envLive _ _ he)
        (fun s hs => root_ne_of_rootedIn haddressed hs he) _
  | found hfinds =>
      exact .withEnv hm (hm.admits_of_finds hfinds)
        (fun s hs => hfinds.root_ne hm haddressed s hs) _
  | @detached _ _ g hdetaches =>
      -- The new environment is rooted in a frame that was created after the session.
      have hg : g.Indexed := hm.indexed_of_detaches hdetaches
      refine (Untouched.withRoot hm g).trans
        (.withEnv (hm.withRoot hg) (.ofRoot (m.world.live_newRoot g)) ?_ _)
      intro s hs
      exact ((hm.sessionLive session s hs).ne_newRoot g).symm
  | @entered id x into names values s e store bindings hs he howns =>
      -- The session that entered the frame accepts the environment, so it is not the one in
      -- question.
      have hne : id ≠ session := ne_of_call hs he howns haddressed
      have hadmits := hm.admits he
      have hsame : (m.withSession id { s with store }).sessions[session]? = m.sessions[session]? :=
        (Untouched.withSession hne { s with store }).sessions
      refine (Untouched.withSession hne _).trans (.withFrames (hm.withStore hs store)
        ⟨hadmits.fits, hadmits.below, hadmits.live⟩ ?_ into bindings 1)
      intro t ht
      rw [Session.owns_iff.1 howns]
      exact hm.root_ne hs hne t (hsame.symm.trans ht)
  | nested he =>
      exact .withFrames hm (hm.admits he) (fun s hs => root_ne_of_rootedIn haddressed hs he) _ _ _
  | closed => exact .closed (of_decide_eq_false haddressed)
  | released => exact .released hm _

/-- A step that is not addressed to a session does not touch it, refused or not. -/
theorem untouched_next (hm : m.Valid) {step : Step}
    (haddressed : m.addressed session step = false) : Untouched session m (m.next step) := by
  rcases m.reply_cases step with ⟨-, -, hsame⟩ | ⟨-, -, hmove⟩
  · rw [hsame]
    exact .refl session m
  · exact hmove.untouched hm haddressed

end ScopedStore.Script.Machine
