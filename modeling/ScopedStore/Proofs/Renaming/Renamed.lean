import ScopedStore.Proofs.Grounding.LegalUse
import ScopedStore.Proofs.Renaming.Relocated

/-!
# Runs at other addresses

Two machines whose sessions in one register hold the same cells at other addresses. A definition, and
every call on the session with an environment, leaves the machines related in the same way, and the
calls are answered alike: an answer says nothing about addresses, as long as every name that is bound
at all is bound to a cell. So the two machines answer every further sequence of calls alike.
-/

namespace ScopedStore.Script

/-- Whether a step is one that an evaluator makes on the session in a register. -/
def SessionStep.evaluates (session : String) : SessionStep → Bool
  | .define id _ _ => id = session
  | .enter id _ _ _ _ => id = session
  | .lookup id _ _ => id = session
  | .assign id _ _ _ => id = session
  | _ => false

namespace Machine

/-- The replies to the calls with an environment along a script. The address that a definition
returns is not among them. -/
def replies (m : Machine) : List SessionStep → List (Except Refusal Answer)
  | [] => []
  | step :: rest =>
    let later := (m.next (.session step)).replies rest
    if step.call?.isSome then m.reply (.session step) :: later else later

/-- The session in a register is `s` in one machine and `s'` in the other, and all that is bound over
its global frame in the one is bound in the other to the corresponding addresses. -/
structure Renamed (ρ : Address → Address) (session : String) (m m' : Machine) (s s' : Session) :
    Prop where
  left : m.sessions[session]? = some s
  right : m'.sessions[session]? = some s'
  root : s'.root = s.root
  count : m'.world.frameCount = m.world.frameCount
  store : s.store.Relocated ρ s'.store
  globals : ∀ name : String, (m'.world.globals s.root).find name =
    ((m.world.globals s.root).find name).map ρ
  envs : ∀ x : String, m'.envs.get? x = (m.envs.get? x).map (Env.relocate ρ s.root)

variable {ρ : Address → Address} {session x : String} {m m' : Machine} {s s' : Session} {e : Env}

/-- A step that two machines answer alike and that leaves them related. -/
structure InStep (ρ : Address → Address) (session : String) (m m' : Machine) (step : Step) :
    Prop where
  reply : m'.reply step = m.reply step
  related : ∃ t t', Renamed ρ session (m.next step) (m'.next step) t t'

/-! ## Definitions -/

structure Defines (m m₁ : Machine) (session : String) (s : Session) (name : String) (v : Value) :
    Prop where
  session : m₁.sessions[session]? = some { s with store := ⟨s.store.cells.push v⟩ }
  count : m₁.world.frameCount = m.world.frameCount
  envs : m₁.envs = m.envs
  find : ∀ other : String, (m₁.world.globals s.root).find other =
    if other = name then .ok ⟨s.store.size⟩ else (m.world.globals s.root).find other

/-- A definition leaves one cell and one name more. -/
theorem Valid.defines (hm : m.Valid) (hs : m.sessions[session]? = some s) (name : String)
    (v : Value) : m.Defines (m.next (.session (.define session name v))) session s name v := by
  have hnext := next_define hs name v
  refine ⟨?_, ?_, ?_, ?_⟩
  · simp [hnext, Machine.withBindings, Machine.withSession]
  · simp [hnext, Machine.withBindings, Machine.withSession]
  · simp [hnext, Machine.withBindings, Machine.withSession]
  · intro other
    have hglobals := World.globals_bindAll s.root [(name, ⟨s.store.size⟩)]
      (hm.sessionLive session s hs) s.root
    simp only [hnext, Machine.withBindings, Machine.withSession, hglobals, if_pos,
      Globals.pushAll_cons, Globals.pushAll_nil, Globals.find_push]

namespace Renamed

/-- Definitions of one name in both machines. -/
theorem define (h : Renamed ρ session m m' s s') (hm : m.Valid) (hm' : m'.Valid) (name : String)
    (v : Value) : Renamed ρ session (m.next (.session (.define session name v)))
      (m'.next (.session (.define session name v)))
      { s with store := ⟨s.store.cells.push v⟩ } { s' with store := ⟨s'.store.cells.push v⟩ } := by
  have hleft := hm.defines h.left name v
  have hright := hm'.defines h.right name v
  refine ⟨hleft.session, hright.session, h.root, ?_, h.store.push v, ?_, ?_⟩
  · simp only [hright.count, hleft.count, h.count]
  · intro other
    have hfresh : ρ ⟨s.store.size⟩ = ⟨s'.store.size⟩ := h.store.fresh 0
    have hfind := hright.find other
    rw [h.root] at hfind
    simp only [hfind, hleft.find]
    split
    · exact congrArg Except.ok hfresh.symm
    · exact h.globals other
  · intro x
    simpa only [hright.envs, hleft.envs] using h.envs x

/-! ## Calls with an environment -/

/-- A register has the environment that corresponds to the one in the first machine. -/
theorem get? (h : Renamed ρ session m m' s s') (he : m.envs.get? x = some e) :
    m'.envs.get? x = some (e.relocate ρ s.root) := by
  simp only [h.envs, he, Option.map_some]

/-- An environment of the session corresponds to one of the other session. -/
theorem owns (h : Renamed ρ session m m' s s') (hroot : e.root = s.root) :
    s'.owns (e.relocate ρ s.root) = true := by
  simp [h.root, hroot]

/-- A search comes to the address that corresponds to the one found in the first machine. -/
theorem find_eq (h : Renamed ρ session m m' s s') (hroot : e.root = s.root) (name : String) :
    m'.world.find (e.relocate ρ s.root) name = (m.world.find e name).map ρ := by
  simp only [World.find, Env.find?_relocate hroot, Env.root_relocate]
  cases e.find? name with
  | some a => rfl
  | none => simpa only [hroot, Option.map_none] using h.globals name

/-- The machines stay related when the sessions get stores that correspond to each other. -/
theorem withStore (h : Renamed ρ session m m' s s') {t t' : Store} (hstore : t.Relocated ρ t') :
    Renamed ρ session (m.withSession session { s with store := t })
      (m'.withSession session { s' with store := t' }) { s with store := t }
      { s' with store := t' } where
  left := by simp [withSession]
  right := by simp [withSession]
  root := h.root
  count := h.count
  store := hstore
  globals := h.globals
  envs := h.envs

/-- The machines stay related when frames are built over corresponding addresses. -/
theorem withFrames (h : Renamed ρ session m m' s s') (hm : m.Valid) (hm' : m'.Valid)
    (he : m.envs.get? x = some e) (hroot : e.root = s.root) (into : String)
    (bindings : List (String × Address)) (n : Nat) :
    Renamed ρ session (m.withFrames into e bindings n)
      (m'.withFrames into (e.relocate ρ s.root) (relocate ρ bindings) n) s s' where
  left := h.left
  right := h.right
  root := h.root
  count := congrArg (· + n) h.count
  store := h.store
  globals := h.globals
  envs := by
    intro y
    rw [hm.get?_withFrames (hm.admits he), hm'.get?_withFrames (hm'.admits (h.get? he))]
    split
    · have hstacked : (Env.stacked bindings m.world.frameCount n).map (Frame.relocate ρ) =
          Env.stacked (relocate ρ bindings) m'.world.frameCount n := by
        rw [h.count]
        induction n with
        | zero => rfl
        | succ n ih => exact congrArg _ ih
      simp [Env.relocate_of_root_eq, hroot, hstacked]
    · exact h.envs y

/-- A step that both machines refuse for the same reason. -/
theorem refused (h : Renamed ρ session m m' s s') {step : Step} {refusal : Refusal}
    (hleft : m.reply step = .error refusal) (hright : m'.reply step = .error refusal) :
    InStep ρ session m m' step where
  reply := hright.trans hleft.symm
  related := by
    refine ⟨s, s', ?_⟩
    simpa only [next_of_refused hleft, next_of_refused hright] using h

/-- Entering a frame allocates cells that correspond to each other, and is answered alike. -/
theorem enter (h : Renamed ρ session m m' s s') (hm : m.Valid) (hm' : m'.Valid)
    (he : m.envs.get? x = some e) (hroot : e.root = s.root) (names : List String)
    (values : List Value) (into : String) :
    InStep ρ session m m' (.session (.enter session x names values into)) := by
  have he' := h.get? he
  have howns : s.owns e = true := Session.owns_iff.2 hroot
  have howns' := h.owns hroot
  by_cases hl : names.length = values.length
  · refine ⟨?_, { s with store := ⟨s.store.cells ++ values.toArray⟩ },
      { s' with store := ⟨s'.store.cells ++ values.toArray⟩ }, ?_⟩
    · simp only [reply_enter_of_length_eq h.left he howns hl,
        reply_enter_of_length_eq h.right he' howns' hl, Env.depth_relocate]
    · -- The frame binds the next cells, and these correspond to each other.
      have hbindings : relocate ρ
            (names.zip ((List.range' s.store.size values.length).map Address.mk)) =
          names.zip ((List.range' s'.store.size values.length).map Address.mk) := by
        rw [relocate_zip, h.store.map_fresh]
      simp only [next_enter h.left he howns hl, next_enter h.right he' howns' hl, ← hbindings]
      exact (h.withStore (h.store.append values.toArray)).withFrames (hm.withStore h.left _)
        (hm'.withStore h.right _) he hroot into _ 1
  · exact h.refused (reply_enter_of_length_ne h.left he howns hl into)
      (reply_enter_of_length_ne h.right he' howns' hl into)

/-- A look-up reads corresponding cells and is answered alike. -/
theorem lookup (h : Renamed ρ session m m' s s') (hm : m.Valid) (hg : m.Grounded session)
    (he : m.envs.get? x = some e) (hroot : e.root = s.root) (name : String) :
    InStep ρ session m m' (.session (.lookup session x name)) := by
  have he' := h.get? he
  have howns : s.owns e = true := Session.owns_iff.2 hroot
  have howns' := h.owns hroot
  have hfind' := h.find_eq hroot name
  refine ⟨?_, s, s', ?_⟩
  · cases hfind : m.world.find e name with
    | ok a =>
        -- There is a cell, so the answer is its value and not its address.
        have hlt := hg.lt_of_find hm h.left he hroot hfind
        have hcell : s.store.cells[a.index]? = some s.store.cells[a.index] :=
          Array.getElem?_eq_getElem hlt
        rw [hfind] at hfind'
        exact (reply_lookup_of_cell h.right he' howns' hfind' ((h.store.cells a).trans hcell)).trans
          (reply_lookup_of_cell h.left he howns hfind hcell).symm
    | error f =>
        rw [hfind] at hfind'
        exact (reply_lookup_of_error h.right he' howns' hfind').trans
          (reply_lookup_of_error h.left he howns hfind).symm
  · simpa only [next_lookup] using h

/-- An assignment writes to corresponding cells and to no others, and is answered alike. -/
theorem assign (h : Renamed ρ session m m' s s') (hinj : Function.Injective ρ)
    (he : m.envs.get? x = some e) (hroot : e.root = s.root) (name : String) (v : Value) :
    InStep ρ session m m' (.session (.assign session x name v)) := by
  have he' := h.get? he
  have howns : s.owns e = true := Session.owns_iff.2 hroot
  have howns' := h.owns hroot
  have hfind' := h.find_eq hroot name
  cases hfind : m.world.find e name with
  | ok a =>
      rw [hfind] at hfind'
      refine ⟨?_, { s with store := (s.store.write a v).value },
        { s' with store := (s'.store.write (ρ a) v).value }, ?_⟩
      · exact (reply_assign_of_ok h.right he' howns' hfind' v).trans
          (reply_assign_of_ok h.left he howns hfind v).symm
      · simp only [next_assign h.left he howns hfind, next_assign h.right he' howns' hfind']
        exact h.withStore (h.store.write hinj a v)
  | error f =>
      rw [hfind] at hfind'
      exact h.refused (reply_assign_of_error h.left he howns hfind v)
        (reply_assign_of_error h.right he' howns' hfind' v)

/-- A call on the session is answered alike and leaves the machines related. -/
theorem call (h : Renamed ρ session m m' s s') (hinj : Function.Injective ρ) (hm : m.Valid)
    (hm' : m'.Valid) (hg : m.Grounded session) {step : SessionStep}
    (hcall : step.call? = some (session, x)) : InStep ρ session m m' (.session step) := by
  cases he : m.envs.get? x with
  | none =>
      have he' : m'.envs.get? x = none := by simp only [h.envs, he, Option.map_none]
      exact h.refused (reply_of_missing hcall h.left he) (reply_of_missing hcall h.right he')
  | some e =>
      by_cases hroot : e.root = s.root
      · cases step with
        | enter _ _ names values into =>
            cases hcall
            exact h.enter hm hm' he hroot names values into
        | lookup _ _ name =>
            cases hcall
            exact h.lookup hm hg he hroot name
        | assign _ _ name v =>
            cases hcall
            exact h.assign hinj he hroot name v
        | _ => cases hcall
      · have hroot' : (e.relocate ρ s.root).root ≠ s'.root := by simpa [h.root] using hroot
        exact h.refused ((reply_eq_foreign_iff hcall h.left he).2 hroot)
          ((reply_eq_foreign_iff hcall h.right (h.get? he)).2 hroot')

end Renamed

/-! ## Runs -/

/-- The steps of an evaluator are definitions and calls. -/
theorem cases_of_evaluates {step : SessionStep} (h : step.evaluates session = true) :
    (∃ name v, step = .define session name v) ∨ ∃ x, step.call? = some (session, x) := by
  cases step with
  | define id name v =>
      cases of_decide_eq_true h
      exact .inl ⟨name, v, rfl⟩
  | enter id x _ _ _ =>
      cases of_decide_eq_true h
      exact .inr ⟨x, rfl⟩
  | lookup id x _ =>
      cases of_decide_eq_true h
      exact .inr ⟨x, rfl⟩
  | assign id x _ _ =>
      cases of_decide_eq_true h
      exact .inr ⟨x, rfl⟩
  | _ => cases h

/-- An evaluator binds no address but those of cells that it has just allocated. -/
theorem legal_of_evaluates {step : SessionStep} (h : step.evaluates session = true) :
    m.legal session (.session step) = true := by
  cases step with
  | define _ _ _ => simp [legal, offered]
  | enter _ _ _ _ _ => simp [legal, offered]
  | lookup _ _ _ => simp [legal, offered]
  | assign _ _ _ _ => simp [legal, offered]
  | _ => cases h

theorem lawful_of_evaluates {calls : List SessionStep}
    (hcalls : ∀ step ∈ calls, step.evaluates session = true) :
    ∀ m : Machine, m.lawful session (calls.map .session) = true := by
  induction calls with
  | nil =>
      intro m
      rfl
  | cons step rest ih =>
      intro m
      have hlegal := legal_of_evaluates (m := m) (hcalls step List.mem_cons_self)
      have hrest := ih (fun other hother => hcalls other (List.mem_cons_of_mem step hother))
        (m.next (.session step))
      exact Bool.and_eq_true_iff.2 ⟨hlegal, hrest⟩

/-- Machines at other addresses reply alike to every sequence of calls, and stay related. -/
theorem Renamed.run (hinj : Function.Injective ρ) {calls : List SessionStep}
    (hcalls : ∀ step ∈ calls, step.evaluates session = true) :
    ∀ {m m' : Machine} {s s' : Session}, Renamed ρ session m m' s s' → m.Valid → m'.Valid →
      m.Grounded session →
        m'.replies calls = m.replies calls ∧
          ∃ t t', Renamed ρ session (m.last (calls.map .session)) (m'.last (calls.map .session))
            t t' := by
  induction calls with
  | nil =>
      intro m m' s s' h _ _ _
      exact ⟨rfl, s, s', h⟩
  | cons step rest ih =>
      intro m m' s s' h hm hm' hg
      have hstep := hcalls step List.mem_cons_self
      have hg₁ := hg.next hm (legal_of_evaluates hstep)
      have hlater := fun (t t' : Session)
          (h₁ : Renamed ρ session (m.next (.session step)) (m'.next (.session step)) t t') =>
        ih (fun other hother => hcalls other (List.mem_cons_of_mem step hother)) h₁
          (hm.next _) (hm'.next _) hg₁
      rcases cases_of_evaluates hstep with ⟨name, v, rfl⟩ | ⟨x, hcall⟩
      · exact hlater _ _ (h.define hm hm' name v)
      · rcases h.call hinj hm hm' hg hcall with ⟨hreply, t, t', h₁⟩
        rcases hlater t t' h₁ with ⟨hreplies, hlast⟩
        refine ⟨?_, hlast⟩
        simp only [replies, hcall, Option.isSome_some, if_pos, hreply, hreplies]

end Machine

end ScopedStore.Script
