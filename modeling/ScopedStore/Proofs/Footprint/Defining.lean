import ScopedStore.Proofs.Footprint.Assignment
import ScopedStore.Proofs.Footprint.Entering
import ScopedStore.Proofs.Script.Valid

/-!
# The footprint of a definition

A definition adds one cell at the end of the store and one binding at the newest end of the global
frame. The binding is seen from every environment over this frame, however deep, unless a nested
frame hides the name. All other names keep their addresses, and all cells that there were keep their
values; only a name that was bound to the address of the new cell before it existed has a value now.
-/

namespace ScopedStore

/-- Whether a nested frame binds the name, so that no global binding of it is seen. -/
def Env.Hides (e : Env) (name : String) : Prop :=
  ∃ f ∈ e.frames, name ∈ f.names

/-- The nested frames are passed by exactly where they do not hide the name. -/
theorem Env.find?_eq_none_iff_not_hides {e : Env} {name : String} :
    e.find? name = none ↔ ¬ e.Hides name := by
  simp only [find?_eq_none_iff, Hides, not_exists, not_and]

namespace World

variable {w : World} {r : Ref Globals} {f : Env} {a : Address} {name n : String}

/-- A new binding is found where the search gets to its frame, and changes no other search. -/
theorem find_bind (hlive : w.Live r) (f : Env) (name n : String) (a : Address) :
    (w.bind r name a).value.find f n =
      if f.root = r ∧ n = name ∧ f.find? n = none then .ok a else w.find f n := by
  cases hframes : f.find? n with
  | some b => simp [find, hframes]
  | none =>
      have hglobals := globals_bind w r f.root name a (live_iff_isSome.1 hlive)
      by_cases hroot : f.root = r
      · subst hroot
        simp only [find, hframes, hglobals, if_true, Globals.find_push, true_and, and_true]
      · simp only [find, hframes, hglobals, hroot, if_false, false_and]

/-- A search for another name, or for one that a nested frame hides, goes as before. -/
theorem find_bind_of_hides (hlive : w.Live r) (a : Address) (h : n = name → f.Hides name) :
    (w.bind r name a).value.find f n = w.find f n := by
  refine (find_bind hlive f name n a).trans (if_neg ?_)
  rintro ⟨-, rfl, hnone⟩
  exact Env.find?_eq_none_iff_not_hides.1 hnone (h rfl)

end World

namespace Session

variable {s : Session} {w w' : World} {f : Env} {n : String} {v : Value}

/-- A look-up depends on the world through its search only. -/
theorem value_lookup_congr (h : w'.find f n = w.find f n) (s : Session) :
    (s.lookup w' f n).value = (s.lookup w f n).value := by
  cases howns : s.owns f with
  | false => simp [lookup_of_not_owns howns]
  | true => simp [value_lookup howns, h]

/-- Where all addresses can be reported, the names that lead past the end of the store are told
apart from all others by what a look-up of them is answered with. -/
theorem lookup_illegal_iff (hroot : f.root = s.root) (hfits : s.store.size + 1 < 2 ^ 63)
    {raw : Int64} (hraw : raw.toInt = s.store.size) :
    (s.lookup w f n).value = .error (.illegalAddress raw) ↔ w.find f n = .ok ⟨s.store.size⟩ := by
  constructor
  · intro hlookup
    rcases exists_of_lookup_illegal hroot hlookup with ⟨a, hfind, hle, rfl⟩
    -- The address is reported as it is, for one past the largest integer would be reported so.
    have hindex := a.toInt_toInt64
    have hsame : a = ⟨s.store.size⟩ := Address.eq_of_index (by simp only; omega)
    exact hsame ▸ hfind
  · intro hbound
    have hindex := (Address.mk s.store.size).toInt_toInt64
    have hexact : (Address.mk s.store.size).toInt64 = raw := Int64.toInt_inj.1 (by
      simp only at hindex
      omega)
    exact hexact ▸ lookup_of_size_le hroot hbound (Nat.le_refl _)

/-- A name that leads to the new cell has the value of this cell. -/
theorem lookup_grown_of_eq (hroot : f.root = s.root) (hbound : w'.find f n = .ok ⟨s.store.size⟩) :
    ((s.grown [v]).lookup w' f n).value = .ok v := by
  have hroot' : f.root = (s.grown [v]).root := hroot
  have hread : (s.store.append [v]).read ⟨s.store.size⟩ = .ok v :=
    Store.read_append_of_getElem? (Nat.le_refl _) (by simp)
  simp [value_lookup_of_root hroot', hbound, hread, Except.bind]

/-- A name that leads elsewhere, as it did before, has the value or the fault that it had. -/
theorem lookup_grown_of_ne (hroot : f.root = s.root) (hsame : w'.find f n = w.find f n)
    (hne : w.find f n ≠ .ok ⟨s.store.size⟩) :
    ((s.grown [v]).lookup w' f n).value = (s.lookup w f n).value := by
  refine lookup_grown_of_old hroot hsame ?_
  intro a ha
  rcases Nat.lt_trichotomy a.index s.store.size with hlt | heq | hgt
  · exact .inl hlt
  · exact absurd (Address.eq_of_index (b := ⟨s.store.size⟩) heq ▸ ha) hne
  · exact .inr hgt

end Session

namespace Script.Machine

variable {m : Machine} {id y n : String} {s : Session} {f : Env} {a : Address}

/-- What the definition of `name` as `v` makes of a machine. -/
structure Defined (m m' : Machine) (id : String) (s : Session) (name : String) (v : Value) :
    Prop where
  /-- The store has one cell more, and its other cells hold what they held. -/
  session : ∃ t, m'.sessions[id]? = some t ∧ t.root = s.root ∧
    t.store.cells = s.store.cells.push v ∧
      ∀ a : Address, a.index < s.store.size → t.store.read a = s.store.read a
  others : ∀ other ≠ id, m'.sessions[other]? = m.sessions[other]?
  /-- No environment changes, frame by frame. -/
  envs : m'.envs = m.envs
  /-- The global frame has one binding more, at the newest end. -/
  bindings : (m'.world.globals s.root).bindings =
    (name, ⟨s.store.size⟩) :: (m.world.globals s.root).bindings
  roots : ∀ r ≠ s.root, m'.world.globals r = m.world.globals r
  /-- The definition is seen from every environment of the session that does not hide the name. -/
  seen : ∀ (y : String) (f : Env), m.envs.get? y = some f → f.root = s.root → ¬ f.Hides name →
    m'.reply (.env (.resolve y name)) = .ok (.address ⟨s.store.size⟩) ∧
      m'.reply (.session (.lookup id y name)) = .ok (.value v)
  /-- Any other name keeps its address, and so does a hidden one. -/
  resolve : ∀ (y n : String) (f : Env), m.envs.get? y = some f → f.root = s.root →
    (n = name → f.Hides name) → m'.reply (.env (.resolve y n)) = m.reply (.env (.resolve y n))
  /-- It has the new value if it was bound to the address of the new cell all along. -/
  revived : ∀ (y n : String) (f : Env), m.envs.get? y = some f → f.root = s.root →
    (n = name → f.Hides name) → m.reply (.env (.resolve y n)) = .ok (.address ⟨s.store.size⟩) →
      m.reply (.session (.lookup id y n)) =
        .error (.fault (.illegalAddress (Address.mk s.store.size).toInt64)) ∧
      m'.reply (.session (.lookup id y n)) = .ok (.value v)
  /-- And the value or the fault that it had if it was not. -/
  kept : ∀ (y n : String) (f : Env), m.envs.get? y = some f → f.root = s.root →
    (n = name → f.Hides name) → m.reply (.env (.resolve y n)) ≠ .ok (.address ⟨s.store.size⟩) →
      m'.reply (.session (.lookup id y n)) = m.reply (.session (.lookup id y n))
  /-- In a store whose addresses can all be reported, the answers alone tell these two apart. -/
  answered : s.store.size + 1 < 2 ^ 63 → ∀ (y n : String) (f : Env), m.envs.get? y = some f →
    f.root = s.root → (n = name → f.Hides name) → ∀ raw : Int64, raw.toInt = s.store.size →
      (m.reply (.session (.lookup id y n)) = .error (.fault (.illegalAddress raw)) →
        m'.reply (.session (.lookup id y n)) = .ok (.value v)) ∧
      (m.reply (.session (.lookup id y n)) ≠ .error (.fault (.illegalAddress raw)) →
        m'.reply (.session (.lookup id y n)) = m.reply (.session (.lookup id y n)))
  /-- Environments over other global frames answer every session as before. -/
  foreign : ∀ (y n : String) (f : Env), m.envs.get? y = some f → f.root ≠ s.root →
    m'.reply (.env (.resolve y n)) = m.reply (.env (.resolve y n)) ∧
      ∀ (other : String) (u : Session), m.sessions[other]? = some u →
        m'.reply (.session (.lookup other y n)) = m.reply (.session (.lookup other y n))

/-- A definition answers the address of its new cell, which is the size of the store before. -/
theorem reply_define (hs : m.sessions[id]? = some s) (name : String) (v : Value) :
    m.reply (.session (.define id name v)) = .ok (.address ⟨s.store.size⟩) := by
  simp [reply, exec, execSession, register?, hs, answer]

/-- The machine that a definition leaves, part by part. -/
theorem next_define_parts (hs : m.sessions[id]? = some s) (name : String) (v : Value) :
    let m' := m.next (.session (.define id name v))
    (∀ other : String, m'.sessions[other]? =
        if other = id then some (s.grown [v]) else m.sessions[other]?) ∧
      m'.envs = m.envs ∧ m'.world = (m.world.bind s.root name ⟨s.store.size⟩).value := by
  have hstore : (⟨s.store.cells.push v⟩ : Store) = s.store.append [v] := by simp [Store.append]
  simp only [next_define hs, hstore]
  exact ⟨fun other => Lookup.getElem?_insert m.sessions id other (s.grown [v]), rfl, rfl⟩

/-- The machine with one cell and one binding more. -/
theorem Valid.defined (hm : m.Valid) (hs : m.sessions[id]? = some s) (name : String) (v : Value) :
    m.Defined (m.next (.session (.define id name v))) id s name v := by
  have hlive : m.world.Live s.root := hm.sessionLive id s hs
  rcases next_define_parts hs name v with ⟨hsessions, henvs, hworld⟩
  generalize m.next (.session (.define id name v)) = m' at hsessions henvs hworld ⊢
  have ht : m'.sessions[id]? = some (s.grown [v]) := (hsessions id).trans (if_pos rfl)
  have hothers : ∀ other ≠ id, m'.sessions[other]? = m.sessions[other]? :=
    fun other hother => (hsessions other).trans (if_neg hother)
  have hget : ∀ {y : String} {f : Env}, m.envs.get? y = some f → m'.envs.get? y = some f :=
    fun hf => henvs.symm ▸ hf
  have hglobals : ∀ r, m'.world.globals r =
      if r = s.root then (m.world.globals s.root).push name ⟨s.store.size⟩
      else m.world.globals r := fun r =>
    hworld ▸ World.globals_bind m.world s.root r name _ (World.live_iff_isSome.1 hlive)
  have hfind : ∀ (f : Env) (n : String), m'.world.find f n =
      if f.root = s.root ∧ n = name ∧ f.find? n = none then .ok ⟨s.store.size⟩
      else m.world.find f n := fun f n => hworld ▸ World.find_bind hlive f name n _
  have hhidden : ∀ {n : String} {f : Env}, (n = name → f.Hides name) →
      m'.world.find f n = m.world.find f n := fun h => hworld ▸ World.find_bind_of_hides hlive _ h
  -- A name leads to the new cell or elsewhere, and this decides how a look-up of it is answered.
  have hnew : ∀ {y n : String} {f : Env}, m.envs.get? y = some f → f.root = s.root →
      m'.world.find f n = .ok ⟨s.store.size⟩ →
        m'.reply (.session (.lookup id y n)) = .ok (.value v) := by
    intro y n f hf hroot hbound
    simp only [reply_lookup ht (hget hf), Session.lookup_grown_of_eq hroot hbound]
    rfl
  have hold : ∀ {y n : String} {f : Env}, m.envs.get? y = some f → f.root = s.root →
      (n = name → f.Hides name) → m.world.find f n ≠ .ok ⟨s.store.size⟩ →
        m'.reply (.session (.lookup id y n)) = m.reply (.session (.lookup id y n)) := by
    intro y n f hf hroot h hne
    simp only [reply_lookup ht (hget hf), reply_lookup hs hf,
      Session.lookup_grown_of_ne hroot (hhidden h) hne]
  constructor
  case session =>
    refine ⟨s.grown [v], ht, rfl, by simp [Store.append], ?_⟩
    intro a hlt
    exact Store.read_append_of_outside (.inl hlt)
  case others => exact hothers
  case envs => exact henvs
  case bindings => simp [hglobals]
  case roots =>
    intro r hr
    simp [hglobals, hr]
  case seen =>
    intro y f hf hroot hhides
    have hbound : m'.world.find f name = .ok ⟨s.store.size⟩ :=
      (hfind f name).trans (if_pos ⟨hroot, rfl, Env.find?_eq_none_iff_not_hides.2 hhides⟩)
    exact ⟨(reply_search_eq_address_iff (hget hf)).2 hbound, hnew hf hroot hbound⟩
  case resolve =>
    intro y n f hf _ h
    simp only [reply_search (hget hf), reply_search hf, hhidden h]
  case revived =>
    intro y n f hf hroot h hreply
    have hbound : m.world.find f n = .ok ⟨s.store.size⟩ := (reply_search_eq_address_iff hf).1 hreply
    refine ⟨?_, hnew hf hroot ((hhidden h).trans hbound)⟩
    simp only [reply_lookup hs hf, Session.lookup_of_size_le hroot hbound (Nat.le_refl _)]
    rfl
  case kept =>
    intro y n f hf hroot h hreply
    exact hold hf hroot h fun hbound => hreply ((reply_search_eq_address_iff hf).2 hbound)
  case answered =>
    intro hfits y n f hf hroot h raw hraw
    have hillegal : m.reply (.session (.lookup id y n)) = .error (.fault (.illegalAddress raw)) ↔
        m.world.find f n = .ok ⟨s.store.size⟩ := by
      refine Iff.trans ?_ (Session.lookup_illegal_iff hroot hfits hraw)
      simp only [reply_lookup hs hf]
      cases (s.lookup m.world f n).value <;> simp [Except.map]
    exact ⟨fun hfault => hnew hf hroot ((hhidden h).trans (hillegal.1 hfault)),
      fun hfault => hold hf hroot h fun hbound => hfault (hillegal.2 hbound)⟩
  case foreign =>
    intro y n f hf hroot
    have hsame : m'.world.find f n = m.world.find f n :=
      (hfind f n).trans (if_neg fun h => hroot h.1)
    refine ⟨by simp only [reply_search (hget hf), reply_search hf, hsame], ?_⟩
    intro other u hu
    by_cases hother : other = id
    · subst hother
      rcases Option.some.inj (hs.symm.trans hu) with rfl
      have hroot' : f.root ≠ (s.grown [v]).root := hroot
      simp only [reply_lookup ht (hget hf), reply_lookup hs hf,
        (lookup_eq_foreign m'.world n).2 hroot', (lookup_eq_foreign m.world n).2 hroot]
    · have hu' : m'.sessions[other]? = some u := (hothers other hother).trans hu
      simp only [reply_lookup hu' (hget hf), reply_lookup hu hf,
        Session.value_lookup_congr hsame u]

/-- In every session that a script can come to, a definition is answered with the address past the
end of the store, and changes nothing but what is said above. -/
theorem define_footprint (steps : List Step)
    (hs : (({} : Machine).last steps).sessions[id]? = some s) (name : String) (v : Value) :
    let m := ({} : Machine).last steps
    m.reply (.session (.define id name v)) = .ok (.address ⟨s.store.size⟩) ∧
      m.Defined (m.next (.session (.define id name v))) id s name v :=
  ⟨reply_define hs name v, (valid_empty.last steps).defined hs name v⟩

/-- A name is defined again under a nested frame that hides it, while another global name has been
waiting for the cell: the nested frame goes on to hide the name, and both global names have the new
value. -/
theorem define_hidden_and_revived :
    let steps : List Step := [.session (.create "s" {}), .session (.globalEnv "s" "top"),
      .session (.define "s" "a" (.int 1)), .session (.bind "s" "d" 1),
      .env (.nest ["a"] [0] "top" 1 "inner")]
    let m := ({} : Machine).last steps
    let define : Step := .session (.define "s" "a" (.int 7))
    m.reply define = .ok (.address ⟨1⟩) ∧
      (m.next define).reply (.session (.lookup "s" "top" "a")) = .ok (.value (.int 7)) ∧
      (m.next define).reply (.session (.lookup "s" "inner" "a")) = .ok (.value (.int 1)) ∧
      m.reply (.session (.lookup "s" "inner" "d")) = .error (.fault (.illegalAddress 1)) ∧
      (m.next define).reply (.session (.lookup "s" "inner" "d")) = .ok (.value (.int 7)) := by
  intro steps m define
  let s : Session := ⟨⟨#[.int 1]⟩, ⟨0⟩⟩
  let inner : Env := ⟨[⟨0, [("a", ⟨0⟩)]⟩], ⟨0⟩⟩
  have hs : m.sessions["s"]? = some s := by rfl
  have hinner : m.envs.get? "inner" = some inner := by rfl
  have hhides : inner.Hides "a" := ⟨⟨0, [("a", ⟨0⟩)]⟩, by simp [inner], by simp [Frame.names]⟩
  rcases define_footprint steps hs "a" (.int 7) with ⟨hreply, hdefined⟩
  have htop := hdefined.seen "top" (.ofRoot ⟨0⟩) (by rfl) rfl (by simp [Env.Hides])
  have hbound : m.reply (.env (.resolve "inner" "a")) ≠ .ok (.address ⟨1⟩) := by
    have hother : m.reply (.env (.resolve "inner" "a")) = .ok (.address ⟨0⟩) := by rfl
    intro h
    cases hother.symm.trans h
  have hkept := hdefined.kept "inner" "a" inner hinner rfl (fun _ => hhides) hbound
  have hrevived := hdefined.revived "inner" "d" inner hinner rfl (by simp) (by rfl)
  exact ⟨hreply, htop.2, hkept.trans (by rfl), hrevived⟩

end Script.Machine

end ScopedStore
