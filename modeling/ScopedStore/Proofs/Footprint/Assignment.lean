import ScopedStore.Proofs.Cells.LastWrite
import ScopedStore.Proofs.Script.Calls

/-!
# The footprint of an assignment

An assignment through one name in one environment writes one cell. The new value is seen through
exactly the names that are bound to this cell, in whatever environment of the session and in
whatever frame; nothing else that can be asked of the machine changes. Where the address that the
name is bound to has no cell, nothing changes at all.
-/

namespace ScopedStore

namespace Script.Machine

variable {m : Machine} {id x name : String} {s : Session} {e : Env} {a : Address}

/-- A search that is answered with an address found this address. -/
theorem reply_search_eq_address_iff (he : m.envs.get? x = some e) :
    m.reply (.env (.resolve x name)) = .ok (.address a) ↔ m.world.find e name = .ok a := by
  rw [reply_search he]
  cases m.world.find e name <;> simp [Except.map]

/-- A search asks the world of frames and the environment, and nothing else of a machine. -/
theorem reply_search_congr {m' : Machine} (hworld : m'.world = m.world) (henvs : m'.envs = m.envs)
    (x name : String) :
    m'.reply (.env (.resolve x name)) = m.reply (.env (.resolve x name)) := by
  cases he : m.envs.get? x with
  | none => simp [reply, exec, execEnv, env?, henvs, he]
  | some e => rw [reply_search he, reply_search (henvs ▸ he), hworld]

/-- A look-up in an environment of the session searches, and reads the cell that it comes to. -/
theorem reply_lookup_of_root (hs : m.sessions[id]? = some s) (he : m.envs.get? x = some e)
    (hroot : e.root = s.root) (name : String) :
    m.reply (.session (.lookup id x name)) =
      (((m.world.find e name).bind s.store.read).mapError .fault).map .value := by
  simp only [reply_lookup hs he, Session.value_lookup (Session.owns_iff.2 hroot)]

/-- What an assignment of `v` to a name that is bound to the address `a` makes of a machine. -/
structure Assigned (m m' : Machine) (id : String) (s : Session) (a : Address) (v : Value) :
    Prop where
  /-- No global frame changes, and no nested frame is built. -/
  world : m'.world = m.world
  /-- No environment changes, frame by frame. -/
  envs : m'.envs = m.envs
  others : ∀ other ≠ id, m'.sessions[other]? = m.sessions[other]?
  session : ∃ t, m'.sessions[id]? = some t ∧ t.root = s.root ∧ t.store.size = s.store.size
  resolve : ∀ y n : String, m'.reply (.env (.resolve y n)) = m.reply (.env (.resolve y n))
  /-- The value is seen through every name that is bound to the cell, in every environment. -/
  aliased : a.index < s.store.size → ∀ (y n : String) (f : Env), m.envs.get? y = some f →
    f.root = s.root → m.reply (.env (.resolve y n)) = .ok (.address a) →
      m'.reply (.session (.lookup id y n)) = .ok (.value v)
  /-- It is seen through no other name. -/
  unrelated : ∀ (y n : String) (f : Env), m.envs.get? y = some f → f.root = s.root →
    m.reply (.env (.resolve y n)) ≠ .ok (.address a) →
      m'.reply (.session (.lookup id y n)) = m.reply (.session (.lookup id y n))
  /-- A write without a cell is dropped, and leaves the machine as it was. -/
  dangling : s.store.size ≤ a.index → m' = m

/-- The machine whose session has written the cell. -/
theorem withSession_assigned (hs : m.sessions[id]? = some s) {store : Store} {v : Value}
    (hstore : store = (s.store.write a v).value) :
    m.Assigned (m.withSession id { s with store }) id s a v := by
  have ht : (m.withSession id { s with store }).sessions[id]? = some { s with store } := by
    simp [withSession]
  have hlookup : ∀ (y n : String) (f : Env), m.envs.get? y = some f → f.root = s.root →
      (m.withSession id { s with store }).reply (.session (.lookup id y n)) =
        (((m.world.find f n).bind store.read).mapError .fault).map .value :=
    fun y n f hf hroot => reply_lookup_of_root ht hf hroot n
  refine ⟨rfl, rfl, ?_, ⟨_, ht, rfl, ?_⟩, reply_search_congr rfl rfl, ?_, ?_, ?_⟩
  · intro other hother
    exact (Lookup.getElem?_insert m.sessions id other _).trans (if_neg hother)
  · simp [hstore]
  · intro hlt y n f hf hroot hbound
    have hfind : m.world.find f n = .ok a := (reply_search_eq_address_iff hf).1 hbound
    have hread : store.read a = .ok v := by simp [hstore, Store.read_write, hlt]
    simp [hlookup y n f hf hroot, hfind, hread, Except.bind, Except.map]
  · intro y n f hf hroot hbound
    -- The search goes as before, and a cell that it comes to is another than the one written.
    have hread : (m.world.find f n).bind store.read = (m.world.find f n).bind s.store.read := by
      cases hfind : m.world.find f n with
      | error fault => rfl
      | ok b =>
          have hb : b ≠ a := fun h =>
            hbound ((reply_search_eq_address_iff hf).2 (hfind.trans (congrArg Except.ok h)))
          simp [Except.bind, hstore, Store.read_write, hb]
    simp only [hlookup y n f hf hroot, reply_lookup_of_root hs hf hroot, hread]
  · intro hle
    have hsame : store = s.store := hstore.trans (Store.write_of_size_le hle v).1
    subst hsame
    exact withSession_self hs

/-- An assignment to a name that has an address succeeds, and writes the cell of that address if
there is one: the value is then seen through all aliases of the cell and through nothing else. -/
theorem assign_footprint (hs : m.sessions[id]? = some s) (he : m.envs.get? x = some e)
    (hroot : e.root = s.root) (ha : m.reply (.env (.resolve x name)) = .ok (.address a))
    (v : Value) :
    m.reply (.session (.assign id x name v)) = .ok .done ∧
      m.Assigned (m.next (.session (.assign id x name v))) id s a v := by
  have howns : s.owns e = true := Session.owns_iff.2 hroot
  have hfind : m.world.find e name = .ok a := (reply_search_eq_address_iff he).1 ha
  refine ⟨reply_assign_of_ok hs he howns hfind v, ?_⟩
  simpa only [next_assign hs he howns hfind v] using withSession_assigned hs rfl

/-- A cell that a global name and a parameter share, written through the parameter: the value is
seen through the global name, and a name bound to another cell keeps its own. -/
theorem assign_to_shared_cell :
    let m := ({} : Machine).last [.session (.create "s" {}), .session (.globalEnv "s" "top"),
      .session (.define "s" "a" (.int 1)), .session (.define "s" "b" (.int 2)),
      .env (.nest ["p"] [0] "top" 1 "inner")]
    let assign : Step := .session (.assign "s" "inner" "p" (.int 7))
    m.reply (.env (.resolve "inner" "p")) = .ok (.address ⟨0⟩) ∧
      (m.next assign).reply (.session (.lookup "s" "top" "a")) = .ok (.value (.int 7)) ∧
      (m.next assign).reply (.session (.lookup "s" "inner" "b")) = .ok (.value (.int 2)) := by
  intro m assign
  let s : Session := ⟨⟨#[.int 1, .int 2]⟩, ⟨0⟩⟩
  let inner : Env := ⟨[⟨0, [("p", ⟨0⟩)]⟩], ⟨0⟩⟩
  have hs : m.sessions["s"]? = some s := by rfl
  have hinner : m.envs.get? "inner" = some inner := by rfl
  have ha : m.reply (.env (.resolve "inner" "p")) = .ok (.address ⟨0⟩) := by rfl
  rcases assign_footprint hs hinner rfl ha (.int 7) with ⟨-, hassigned⟩
  refine ⟨ha, hassigned.aliased (by decide) "top" "a" (.ofRoot ⟨0⟩) (by rfl) rfl (by rfl), ?_⟩
  refine (hassigned.unrelated "inner" "b" inner hinner rfl ?_).trans (by rfl)
  intro hbound
  have hother : m.reply (.env (.resolve "inner" "b")) = .ok (.address ⟨1⟩) := by rfl
  cases hother.symm.trans hbound

end Script.Machine

end ScopedStore
