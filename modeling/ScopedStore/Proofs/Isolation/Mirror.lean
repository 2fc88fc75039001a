import ScopedStore.Proofs.Isolation.Untouched

/-!
# Two machines that agree on a session

`Mirror` relates two machines that hold a session in the same register: the stores are equal, the
global frames hold the same, and every environment that the first machine has rooted in the session
has a counterpart in the second, with the same bindings in every frame. Identities may differ: the
second machine may have created far fewer frames. The relation does not look at anything else of the
first machine, so changes elsewhere keep it; and a change of the session made on both sides keeps it.
-/

namespace ScopedStore.Script.Machine

/-- Environments rooted in given global frames that bind the same, frame by frame. -/
structure Alike (r r' : Ref Globals) (e e' : Env) : Prop where
  root : e.root = r
  root' : e'.root = r'
  frames : e'.frames.map Frame.bindings = e.frames.map Frame.bindings

/-- The sessions in a register of two machines, and the environments rooted in them, agree. -/
structure Mirror (session : String) (m m' : Machine) (s s' : Session) : Prop where
  left : m.sessions[session]? = some s
  right : m'.sessions[session]? = some s'
  store : s'.store = s.store
  globals : m'.world.globals s'.root = m.world.globals s.root
  envs : ∀ (x : String) (e : Env), m.envs.get? x = some e → e.root = s.root →
    ∃ e', m'.envs.get? x = some e' ∧ Alike s.root s'.root e e'

/-- Two machines hold sessions that agree in a register, or no session; the second has no store
of its own under that name. -/
structure Mirrors (session : String) (m m' : Machine) : Prop where
  bare : m'.stores[session]? = none
  sessions : (m.sessions[session]? = none ∧ m'.sessions[session]? = none) ∨
    ∃ s s', Mirror session m m' s s'

/-! ## Environments that are alike -/

namespace Alike

variable {r r' : Ref Globals} {e e' : Env}

theorem ofRoot (r r' : Ref Globals) : Alike r r' (.ofRoot r) (.ofRoot r') :=
  ⟨rfl, rfl, rfl⟩

/-- Environments that bind the same are equally deep. -/
theorem depth_eq (h : Alike r r' e e') : e'.depth = e.depth := by
  have hlength := congrArg List.length h.frames
  simpa [Env.depth] using hlength

/-- In environments that bind the same a name has the same address. -/
theorem find?_eq (h : Alike r r' e e') (name : String) : e'.find? name = e.find? name := by
  have hfind : ∀ f : Env, f.find? name =
      (f.frames.map Frame.bindings).findSome? (·.lookup name) := by
    intro f
    rw [List.findSome?_map]
    rfl
  rw [hfind, hfind, h.frames]

theorem find_eq {w w' : World} (h : Alike r r' e e') (hglobals : w'.globals r' = w.globals r)
    (name : String) : w'.find e' name = w.find e name := by
  unfold World.find
  rw [h.find?_eq name, h.root, h.root', hglobals]

theorem owns (h : Alike r r' e e') (s s' : Session) (hs : s.root = r) (hs' : s'.root = r') :
    s.owns e = true ∧ s'.owns e' = true :=
  ⟨Session.owns_iff.2 (h.root.trans hs.symm), Session.owns_iff.2 (h.root'.trans hs'.symm)⟩

/-- What is enclosed is alike too: both have it, or neither does. -/
theorem enclosing? (h : Alike r r' e e') : (e.enclosing? = none ∧ e'.enclosing? = none) ∨
    ∃ f f', e.enclosing? = some f ∧ e'.enclosing? = some f' ∧ Alike r r' f f' := by
  -- The two have equally many frames, so the mixed cases cannot be.
  rcases e with ⟨frames, root⟩
  rcases e' with ⟨frames', root'⟩
  cases frames with
  | nil =>
      cases frames' with
      | nil => exact .inl ⟨rfl, rfl⟩
      | cons f' rest' => cases h.frames
  | cons f rest =>
      cases frames' with
      | nil => cases h.frames
      | cons f' rest' =>
          have hrest : rest'.map Frame.bindings = rest.map Frame.bindings :=
            (List.cons.inj h.frames).2
          exact .inr ⟨⟨rest, root⟩, ⟨rest', root'⟩, rfl, rfl, h.root, h.root', hrest⟩

theorem stacked (h : Alike r r' e e') (bindings : List (String × Address)) (i j n : Nat) :
    Alike r r' { e with frames := Env.stacked bindings i n ++ e.frames }
      { e' with frames := Env.stacked bindings j n ++ e'.frames } where
  root := h.root
  root' := h.root'
  frames := by
    -- Only the numbers of the frames differ, never what they bind.
    have hstacked : (Env.stacked bindings j n).map Frame.bindings =
        (Env.stacked bindings i n).map Frame.bindings := by
      induction n with
      | zero => rfl
      | succ n ih => exact congrArg (bindings :: ·) ih
    rw [List.map_append, List.map_append, hstacked, h.frames]

end Alike

/-! ## What keeps the relation -/

namespace Mirror

variable {session : String} {m m' : Machine} {s s' : Session}

/-- What leaves the session untouched in the first machine leaves the two in agreement. -/
theorem untouched (h : Mirror session m m' s s') {m₁ : Machine} (hu : Untouched session m m₁) :
    Mirror session m₁ m' s s' where
  left := hu.sessions.trans h.left
  right := h.right
  store := h.store
  globals := h.globals.trans (hu.globals s h.left).symm
  envs := fun x e he hroot => h.envs x e (hu.envs s x e h.left he hroot) hroot

/-- The machines agree again when both sessions have got the same store. -/
theorem withStore (h : Mirror session m m' s s') (store : Store) :
    Mirror session (m.withSession session { s with store }) (m'.withSession session { s' with store })
      { s with store } { s' with store } where
  left := Std.ExtTreeMap.getElem?_insert_self
  right := Std.ExtTreeMap.getElem?_insert_self
  store := rfl
  globals := h.globals
  envs := h.envs

/-- The machines agree again when both global frames have got the same bindings. -/
theorem withBindings (h : Mirror session m m' s s') (hlive : m.world.Live s.root)
    (hlive' : m'.world.Live s'.root) (bindings : List (String × Address)) :
    Mirror session (m.withBindings s.root bindings) (m'.withBindings s'.root bindings) s s' :=
  { h with
    globals := by
      have hleft := World.globals_bindAll s.root bindings hlive s.root
      have hright := World.globals_bindAll s'.root bindings hlive' s'.root
      rw [if_pos rfl] at hleft hright
      change (m'.world.bindAll s'.root bindings).globals s'.root =
        (m.world.bindAll s.root bindings).globals s.root
      rw [hleft, hright, h.globals] }

/-- The machines agree again when a register has got environments that bind the same. -/
theorem withEnv (h : Mirror session m m' s s') (hm : m.Valid) (hm' : m'.Valid) {e e' : Env}
    (hadmits : m.Admits e) (hadmits' : m'.Admits e') (halike : Alike s.root s'.root e e')
    (into : String) : Mirror session (m.withEnv into e) (m'.withEnv into e') s s' :=
  { h with
    envs := by
      intro x f hf hroot
      rw [hm.get?_withEnv hadmits] at hf
      rw [hm'.get?_withEnv hadmits']
      by_cases hx : x = into
      · rw [if_pos hx] at hf ⊢
        cases hf
        exact ⟨e', rfl, halike⟩
      · rw [if_neg hx] at hf ⊢
        exact h.envs x f hf hroot }

/-- The machines agree again when the same frames have been built on both sides, whatever their
numbers. -/
theorem withFrames (h : Mirror session m m' s s') (hm : m.Valid) (hm' : m'.Valid) {e e' : Env}
    (hadmits : m.Admits e) (hadmits' : m'.Admits e') (halike : Alike s.root s'.root e e')
    (into : String) (bindings : List (String × Address)) (n : Nat) :
    Mirror session (m.withFrames into e bindings n) (m'.withFrames into e' bindings n) s s' := by
  have hskip : Mirror session
      { m with world := { m.world with frameCount := m.world.frameCount + n } }
      { m' with world := { m'.world with frameCount := m'.world.frameCount + n } } s s' :=
    ⟨h.left, h.right, h.store, h.globals, h.envs⟩
  exact hskip.withEnv (hm.skip n) (hm'.skip n) (hm.admits_stacked hadmits bindings n)
    (hm'.admits_stacked hadmits' bindings n) (halike.stacked bindings _ _ n) into

/-- The machines agree again when the same register has been emptied on both sides. -/
theorem released (h : Mirror session m m' s s') (hm : m.Valid) (hm' : m'.Valid) (x : String) :
    Mirror session { m with envs := m.envs.erase x } { m' with envs := m'.envs.erase x } s s' :=
  { h with
    envs := by
      intro y f hf hroot
      change (m.envs.erase x).get? y = some f at hf
      change ∃ f', (m'.envs.erase x).get? y = some f' ∧ Alike s.root s'.root f f'
      rw [hm.get?_released] at hf
      rw [hm'.get?_released]
      by_cases hy : y = x
      · rw [if_pos hy] at hf
        cases hf
      · rw [if_neg hy] at hf ⊢
        exact h.envs y f hf hroot }

/-- Sessions that have just been opened agree: nothing is rooted in either yet. -/
theorem opened (hm : m.Valid) (session : String) : Mirror session
    ((m.withRoot {}).withSession session { root := (m.world.newRoot {}).1 })
    ((m'.withRoot {}).withSession session { root := (m'.world.newRoot {}).1 })
    { root := (m.world.newRoot {}).1 } { root := (m'.world.newRoot {}).1 } where
  left := Std.ExtTreeMap.getElem?_insert_self
  right := Std.ExtTreeMap.getElem?_insert_self
  store := rfl
  globals := by
    have hleft := World.globals_newRoot m.world {} (m.world.newRoot {}).1
    have hright := World.globals_newRoot m'.world {} (m'.world.newRoot {}).1
    rw [if_pos rfl] at hleft hright
    exact hright.trans hleft.symm
  envs := by
    intro x e he hroot
    exact absurd hroot ((hm.envLive x e he).ne_newRoot {})

end Mirror

theorem Mirrors.untouched {session : String} {m m' m₁ : Machine} (h : Mirrors session m m')
    (hu : Untouched session m m₁) : Mirrors session m₁ m' := by
  refine ⟨h.bare, ?_⟩
  rcases h.sessions with ⟨hnone, hnone'⟩ | ⟨s, s', hmirror⟩
  · exact .inl ⟨hu.sessions.trans hnone, hnone'⟩
  · exact .inr ⟨s, s', hmirror.untouched hu⟩

end ScopedStore.Script.Machine
