import ScopedStore.Proofs.Script.Moves

/-!
# Calls on an environment

A session is called with an environment to look a name up, to assign to it or to enter a frame. Such
a call is answered as foreign exactly when the environment has another root than the session: no
other fault of a call is reported in that way.
-/

namespace ScopedStore

theorem Globals.find_ne_foreign (g : Globals) (name : String) : g.find name ≠ .error .foreign := by
  unfold find
  cases g.newest[name]? <;> simp

theorem World.find_ne_foreign (w : World) (e : Env) (name : String) :
    w.find e name ≠ .error .foreign := by
  unfold find
  cases e.find? name with
  | some a => simp
  | none => exact (w.globals e.root).find_ne_foreign name

theorem Store.read_ne_foreign (s : Store) (a : Address) : s.read a ≠ .error .foreign := by
  unfold read
  cases s.cells[a.index]? <;> simp

namespace Script

def SessionStep.call? : SessionStep → Option (String × String)
  | .enter session env _ _ _ => some (session, env)
  | .lookup session env _ => some (session, env)
  | .assign session env _ _ => some (session, env)
  | _ => none

namespace Machine

variable {m : Machine} {id x : String} {s : Session} {e : Env}

/-- A search along a chain is answered by the world. -/
theorem reply_search (he : m.envs.get? x = some e) (name : String) :
    m.reply (.env (.resolve x name)) =
      ((m.world.find e name).mapError .fault).map .address := by
  simp only [reply, exec, execEnv, env?, he, found_ok, Traced.value_bind, World.value_resolve]
  cases m.world.find e name <;> rfl

theorem reply_describe (he : m.envs.get? x = some e) :
    m.reply (.env (.describe x)) = .ok (.env e (m.world.globals e.root)) := by
  simp [reply, exec, execEnv, env?, he, answer]

theorem reply_enter (hs : m.sessions[id]? = some s) (he : m.envs.get? x = some e)
    (names : List String) (values : List Value) (into : String) :
    m.reply (.session (.enter id x names values into)) =
      ((s.enter m.world e names values).value.1.mapError .fault).map fun f => .depth f.depth := by
  simp only [reply, exec, execSession, register?, env?, hs, he, found_ok, Traced.value_bind]
  cases (s.enter m.world e names values).value.1 <;> rfl

/-- A step that looks a name up is answered as its session answers. -/
theorem reply_lookup (hs : m.sessions[id]? = some s) (he : m.envs.get? x = some e)
    (name : String) : m.reply (.session (.lookup id x name)) =
      ((s.lookup m.world e name).value.mapError .fault).map .value := by
  simp only [reply, exec, execSession, register?, env?, hs, he, found_ok, Traced.value_bind]
  cases (s.lookup m.world e name).value <;> rfl

theorem reply_assign (hs : m.sessions[id]? = some s) (he : m.envs.get? x = some e)
    (name : String) (v : Value) : m.reply (.session (.assign id x name v)) =
      ((s.assign m.world e name v).value.1.mapError .fault).map fun _ => .done := by
  simp only [reply, exec, execSession, register?, env?, hs, he, found_ok, Traced.value_bind]
  cases (s.assign m.world e name v).value.1 <;> rfl

/-- Entering with a value for each name succeeds, and the new environment is one frame deeper. -/
theorem reply_enter_of_length_eq (hs : m.sessions[id]? = some s) (he : m.envs.get? x = some e)
    (howns : s.owns e = true) {names : List String} {values : List Value}
    (hl : names.length = values.length) (into : String) :
    m.reply (.session (.enter id x names values into)) = .ok (.depth (e.depth + 1)) := by
  simp only [reply_enter hs he, Session.value_enter howns hl]
  rfl

/-- Entering with a name too many or too few is refused, with both numbers. -/
theorem reply_enter_of_length_ne (hs : m.sessions[id]? = some s) (he : m.envs.get? x = some e)
    (howns : s.owns e = true) {names : List String} {values : List Value}
    (hl : names.length ≠ values.length) (into : String) :
    m.reply (.session (.enter id x names values into)) =
      .error (.fault (.arity names.length values.length)) := by
  simp only [reply_enter hs he, Session.enter_of_length_ne howns hl]
  rfl

/-- A look-up that finds a cell is answered with its value. -/
theorem reply_lookup_of_cell (hs : m.sessions[id]? = some s) (he : m.envs.get? x = some e)
    (howns : s.owns e = true) {name : String} {a : Address} {v : Value}
    (ha : m.world.find e name = .ok a) (hcell : s.store.cells[a.index]? = some v) :
    m.reply (.session (.lookup id x name)) = .ok (.value v) := by
  have hlookup : (s.lookup m.world e name).value = .ok v := by
    simpa [Session.value_lookup howns, ha, Except.bind] using Store.read_eq_ok_iff.2 hcell
  simp [reply_lookup hs he, hlookup, Except.map]

theorem reply_lookup_of_error (hs : m.sessions[id]? = some s) (he : m.envs.get? x = some e)
    (howns : s.owns e = true) {name : String} {f : Fault} (hf : m.world.find e name = .error f) :
    m.reply (.session (.lookup id x name)) = .error (.fault f) := by
  have hlookup : (s.lookup m.world e name).value = .error f := by
    simp [Session.value_lookup howns, hf, Except.bind]
  simp [reply_lookup hs he, hlookup, Except.map]

/-- An assignment to a name that is found succeeds, be there a cell or not. -/
theorem reply_assign_of_ok (hs : m.sessions[id]? = some s) (he : m.envs.get? x = some e)
    (howns : s.owns e = true) {name : String} {a : Address} (ha : m.world.find e name = .ok a)
    (v : Value) : m.reply (.session (.assign id x name v)) = .ok .done := by
  simp [reply_assign hs he, Session.value_assign_of_ok howns ha, Except.map]

theorem reply_assign_of_error (hs : m.sessions[id]? = some s) (he : m.envs.get? x = some e)
    (howns : s.owns e = true) {name : String} {f : Fault} (hf : m.world.find e name = .error f)
    (v : Value) : m.reply (.session (.assign id x name v)) = .error (.fault f) := by
  simp [reply_assign hs he, Session.value_assign_of_error howns hf, Except.map]

theorem reply_of_missing {step : SessionStep} (hcall : step.call? = some (id, x))
    (hs : m.sessions[id]? = some s) (he : m.envs.get? x = none) :
    m.reply (.session step) = .error (.missing x) := by
  cases step with
  | enter _ _ _ _ _ =>
      cases hcall
      simp [reply, exec, execSession, register?, env?, hs, he]
  | lookup _ _ _ =>
      cases hcall
      simp [reply, exec, execSession, register?, env?, hs, he]
  | assign _ _ _ _ =>
      cases hcall
      simp [reply, exec, execSession, register?, env?, hs, he]
  | _ => cases hcall

/-! ## What calls leave -/

theorem next_define (hs : m.sessions[id]? = some s) (name : String) (v : Value) :
    m.next (.session (.define id name v)) =
      (m.withSession id { s with store := ⟨s.store.cells.push v⟩ }).withBindings s.root
        [(name, ⟨s.store.size⟩)] := by
  simp only [next, exec, execSession, register?, hs, found_ok, Traced.value_bind,
    Session.value_define]
  rfl

/-- A look-up leaves the machine as it is. -/
theorem next_lookup (m : Machine) (id x name : String) :
    m.next (.session (.lookup id x name)) = m := by
  cases hs : m.sessions[id]? with
  | none => simp [next, exec, execSession, register?, hs]
  | some s =>
      cases he : m.envs.get? x with
      | none => simp [next, exec, execSession, register?, env?, hs, he]
      | some e =>
          simp only [next, exec, execSession, register?, env?, hs, he, found_ok, Traced.value_bind]
          cases (s.lookup m.world e name).value <;> rfl

theorem next_assign (hs : m.sessions[id]? = some s) (he : m.envs.get? x = some e)
    (howns : s.owns e = true) {name : String} {a : Address} (ha : m.world.find e name = .ok a)
    (v : Value) : m.next (.session (.assign id x name v)) =
      m.withSession id { s with store := (s.store.write a v).value } := by
  simp only [next, exec, execSession, register?, env?, hs, he, found_ok, Traced.value_bind,
    Session.value_assign_of_ok howns ha]
  rfl

/-- Entering a frame makes the store larger and puts the new environment into a register. -/
theorem next_enter (hs : m.sessions[id]? = some s) (he : m.envs.get? x = some e)
    (howns : s.owns e = true) {names : List String} {values : List Value}
    (hl : names.length = values.length) (into : String) :
    m.next (.session (.enter id x names values into)) =
      (m.withSession id { s with store := ⟨s.store.cells ++ values.toArray⟩ }).withFrames into e
        (names.zip ((List.range' s.store.size values.length).map Address.mk)) 1 := by
  simp only [next, exec, execSession, register?, env?, hs, he, found_ok, Traced.value_bind,
    Session.value_enter howns hl]
  rfl

/-! ## Foreign environments -/

/-- A fault of a call is the reply to it, and the reply is foreign in no other case. -/
theorem mapped_eq_foreign {α : Type} {result : Except Fault α} {answer : α → Answer} :
    (result.mapError Refusal.fault).map answer = .error (.fault .foreign) ↔
      result = .error .foreign := by
  cases result <;> simp [Except.map]

theorem enter_eq_foreign (w : World) (names : List String) (values : List Value) :
    (s.enter w e names values).value.1 = .error .foreign ↔ e.root ≠ s.root := by
  cases howns : s.owns e with
  | false =>
      have hroot : e.root ≠ s.root := of_decide_eq_false howns
      rw [Session.enter_of_not_owns howns]
      simp [hroot]
  | true =>
      have hroot : e.root = s.root := Session.owns_iff.1 howns
      by_cases hl : names.length = values.length
      · rw [Session.value_enter howns hl]
        simp [hroot]
      · rw [Session.enter_of_length_ne howns hl]
        simp [hroot]

theorem lookup_eq_foreign (w : World) (name : String) :
    (s.lookup w e name).value = .error .foreign ↔ e.root ≠ s.root := by
  cases howns : s.owns e with
  | false =>
      have hroot : e.root ≠ s.root := of_decide_eq_false howns
      rw [Session.lookup_of_not_owns howns]
      simp [hroot]
  | true =>
      have hroot : e.root = s.root := Session.owns_iff.1 howns
      rw [Session.value_lookup howns]
      -- With the right root, the faults that are left are those of the search and of the store.
      have hfind := w.find_ne_foreign e name
      cases hresult : w.find e name with
      | ok a => simpa [Except.bind, hroot] using s.store.read_ne_foreign a
      | error fault =>
          rw [hresult] at hfind
          simpa [Except.bind, hroot] using hfind

theorem assign_eq_foreign (w : World) (name : String) (v : Value) :
    (s.assign w e name v).value.1 = .error .foreign ↔ e.root ≠ s.root := by
  cases howns : s.owns e with
  | false =>
      have hroot : e.root ≠ s.root := of_decide_eq_false howns
      rw [Session.assign_of_not_owns howns]
      simp [hroot]
  | true =>
      have hroot : e.root = s.root := Session.owns_iff.1 howns
      -- The write itself cannot fail, so the only fault that is left is that of the search.
      have hfind := w.find_ne_foreign e name
      cases hresult : w.find e name with
      | ok a =>
          rw [Session.value_assign_of_ok howns hresult]
          simp [hroot]
      | error fault =>
          rw [hresult] at hfind
          rw [Session.value_assign_of_error howns hresult]
          simpa [hroot] using hfind

/-- A call is answered as foreign exactly when the environment has another root. -/
theorem reply_eq_foreign_iff {step : SessionStep} (hcall : step.call? = some (id, x))
    (hs : m.sessions[id]? = some s) (he : m.envs.get? x = some e) :
    m.reply (.session step) = .error (.fault .foreign) ↔ e.root ≠ s.root := by
  cases step with
  | enter _ _ names values into =>
      cases hcall
      rw [reply_enter hs he, mapped_eq_foreign]
      exact enter_eq_foreign m.world names values
  | lookup _ _ name =>
      cases hcall
      rw [reply_lookup hs he, mapped_eq_foreign]
      exact lookup_eq_foreign m.world name
  | assign _ _ name v =>
      cases hcall
      rw [reply_assign hs he, mapped_eq_foreign]
      exact assign_eq_foreign m.world name v
  | _ => cases hcall

end Machine

end Script

end ScopedStore
