import ScopedStore.Proofs.Lookup
import ScopedStore.Proofs.Repeated
import ScopedStore.Proofs.Script.Runs

/-!
# What a step can do

`Moves m step m'` lists every way in which a step that succeeds can change the sessions, the
environments and the global frames of a machine. A refused step changes nothing at all. Whatever
is shown of runs is shown of these moves, one case for each, and never of the steps themselves.
-/

namespace ScopedStore.Script

def StoreStep.target? : StoreStep → Option String
  | .alloc store _ => some store
  | .allocMany store _ _ => some store
  | .write store _ _ => some store
  | _ => none

def SessionStep.binder? : SessionStep → Option String
  | .bind session _ _ => some session
  | .define session _ _ => some session
  | .defineMany session _ _ => some session
  | _ => none

/-- Whether a step leaves sessions, environments and global frames alone, whatever the machine. -/
def Step.quiet : Step → Bool
  | .session (.lookup _ _ _) => true
  | .session _ => false
  | .env (.resolve _ _) => true
  | .env (.findGlobal _ _) => true
  | .env (.kind _) => true
  | .env (.sameFrame _ _) => true
  | .env (.sameRoot _ _) => true
  | .env (.describe _) => true
  | .env _ => false
  | .globals (.toEnv _ _) => false
  | .drop .session _ => false
  | .drop .env _ => false
  | _ => true

namespace Machine

def Standing (m : Machine) : Prop :=
  ∀ (id : String) (g : Globals), m.globals[id]? = some g → g.Indexed

/-! ## Changes of a machine -/

def withSession (m : Machine) (id : String) (s : Session) : Machine :=
  { m with sessions := m.sessions.insert id s }

def withEnv (m : Machine) (into : String) (e : Env) : Machine :=
  { m with envs := m.envs.insert into e }

def withRoot (m : Machine) (g : Globals) : Machine :=
  { m with world := (m.world.newRoot g).2 }

def withBindings (m : Machine) (r : Ref Globals) (bindings : List (String × Address)) : Machine :=
  { m with world := m.world.bindAll r bindings }

/-- Builds frames on an environment and puts the result into a register. -/
def withFrames (m : Machine) (into : String) (e : Env) (bindings : List (String × Address))
    (count : Nat) : Machine :=
  { m with
    world := { m.world with frameCount := m.world.frameCount + count }
    envs := m.envs.insert into
      { e with frames := Env.stacked bindings m.world.frameCount count ++ e.frames } }

/-- Putting a session back where it is changes nothing. -/
theorem withSession_self {m : Machine} {id : String} {s : Session}
    (hs : m.sessions[id]? = some s) : m.withSession id s = m := by
  unfold withSession
  rw [Lookup.insert_eq_self hs]

/-! ## Moves -/

def bindingsIn (s : Session) : SessionStep → List (String × Address)
  | .bind _ name raw => (Address.ofRaw raw).toOption.toList.map (name, ·)
  | .define _ name _ => [(name, ⟨s.store.size⟩)]
  | .defineMany _ stem count => Session.definitions stem s.store.size count
  | _ => []

/-- The store that a step which binds names in a session leaves the session with. -/
def storeAfter (s : Session) : SessionStep → Store
  | .define _ _ v => ⟨s.store.cells.push v⟩
  | .defineMany _ _ count => (s.counting count).store
  | _ => s.store

inductive Rewrites : StoreStep → Store → Store → Prop where
  | alloc {id : String} {v : Value} (s : Store) : Rewrites (.alloc id v) s (s.alloc v).value.2
  | allocMany {id : String} {v : Value} {count : Nat} (s : Store) :
      Rewrites (.allocMany id v count) s (s.allocMany v count).value.2
  | write {id : String} {raw : Int64} {a : Address} {v : Value} (s : Store) :
      Address.ofRaw raw = .ok a → Rewrites (.write id raw v) s (s.write a v).value

/-- The environment that a step finds in the machine, and the register that it goes to. -/
inductive Finds (m : Machine) : Step → String → Env → Prop where
  | own {id into : String} {s : Session} :
      m.sessions[id]? = some s → Finds m (.session (.globalEnv id into)) into s.globalEnv
  | copy {x into : String} {e : Env} :
      m.envs.get? x = some e → Finds m (.env (.copy x into)) into e
  | global {x into : String} {e : Env} :
      m.envs.get? x = some e → Finds m (.env (.global x into)) into e.global
  | enclosing {x into : String} {e : Env} {f : Frame} :
      m.envs.get? x = some { e with frames := f :: e.frames } →
        Finds m (.env (.enclosing x into)) into e

/-- The contents that a step gives to a detached global frame, and the register it goes to. -/
inductive Detaches (m : Machine) : Step → String → Globals → Prop where
  | create {into : String} : Detaches m (.env (.create into)) into {}
  | copy {id into : String} {g : Globals} :
      m.globals[id]? = some g → Detaches m (.globals (.toEnv id into)) into g

/-- What a step that is not refused can do to sessions, environments and global frames. -/
inductive Moves (m : Machine) : Step → Machine → Prop where
  | still {step : Step} {m' : Machine} :
      step.quiet = true → m'.world = m.world → m'.sessions = m.sessions → m'.envs = m.envs →
        (m.Standing → m'.Standing) → Moves m step m'
  | stored {step : StoreStep} {id : String} {s : Session} {store : Store} :
      step.target? = some id → m.stores[id]? = none → m.sessions[id]? = some s →
        Rewrites step s.store store →
          Moves m (.store step) (m.withSession id { s with store })
  | assigned {id x name : String} {v : Value} {s : Session} {e : Env} {store : Store}
      {a : Address} :
      m.sessions[id]? = some s → m.envs.get? x = some e → s.owns e = true →
        m.world.find e name = .ok a → store = (s.store.write a v).value →
          Moves m (.session (.assign id x name v)) (m.withSession id { s with store })
  | opened {into : String} {capacities : Capacities} :
      Moves m (.session (.create into capacities))
        ((m.withRoot {}).withSession into { root := (m.world.newRoot {}).1 })
  | defined {step : SessionStep} {id : String} {s : Session} {store : Store} :
      step.binder? = some id → m.sessions[id]? = some s → store = storeAfter s step →
        Moves m (.session step)
          ((m.withSession id { s with store }).withBindings s.root (bindingsIn s step))
  | bound {x name : String} {raw : Int64} {a : Address} {e : Env} :
      m.envs.get? x = some e → Address.ofRaw raw = .ok a →
        Moves m (.env (.bindGlobal x name raw)) (m.withBindings e.root [(name, a)])
  | found {step : Step} {into : String} {e : Env} :
      m.Finds step into e → Moves m step (m.withEnv into e)
  | detached {step : Step} {into : String} {g : Globals} :
      m.Detaches step into g →
        Moves m step ((m.withRoot g).withEnv into (.ofRoot (m.world.newRoot g).1))
  | entered {id x into : String} {names : List String} {values : List Value} {s : Session}
      {e : Env} {store : Store} {bindings : List (String × Address)} :
      m.sessions[id]? = some s → m.envs.get? x = some e → s.owns e = true →
        names.length = values.length → store = ⟨s.store.cells ++ values.toArray⟩ →
        bindings = names.zip ((List.range' s.store.size values.length).map Address.mk) →
          Moves m (.session (.enter id x names values into))
            ((m.withSession id { s with store }).withFrames into e bindings 1)
  | nested {x into : String} {names : List String} {raws : List Int64} {count : Nat} {e : Env}
      {bindings : List (String × Address)} {addresses : List Address} :
      m.envs.get? x = some e → raws.mapM Address.ofRaw = .ok addresses →
        bindings = names.zip addresses → (count ≠ 0 → names.length = addresses.length) →
          Moves m (.env (.nest names raws x count into)) (m.withFrames into e bindings count)
  | closed {id : String} :
      Moves m (.drop .session id) { m with sessions := m.sessions.erase id }
  | released {x : String} :
      Moves m (.drop .env x) { m with envs := m.envs.erase x }

/-- A step ends in a refusal that changes nothing, or else in one of the moves. -/
inductive Ends (m : Machine) (step : Step) : Except Refusal Answer × Machine → Prop where
  | refused (refusal : Refusal) : Ends m step (.error refusal, m)
  | moved (a : Answer) {m' : Machine} : Moves m step m' → Ends m step (.ok a, m')

variable {m : Machine} {step : Step}

/-- A step goes on with what it finds, or is refused. -/
theorem Ends.found {α : Type} {x : Except Refusal α} {next : α → Effect}
    (h : ∀ a, x = .ok a → m.Ends step (next a).value) : m.Ends step (m.found x next).value := by
  cases x with
  | ok a => exact h a rfl
  | error refusal => exact .refused refusal

theorem Ends.outcome {α : Type} {x : Except Fault α} {next : α → Effect}
    (h : ∀ a, x = .ok a → m.Ends step (next a).value) : m.Ends step (m.outcome x next).value := by
  cases x with
  | ok a => exact h a rfl
  | error fault => exact .refused (.fault fault)

/-- A step that only reads ends without a change. -/
theorem Ends.answer (hquiet : step.quiet = true) (a : Answer) :
    m.Ends step (m.answer a).value :=
  .moved a (.still hquiet rfl rfl rfl id)

/-- A step finds in a register what is there. -/
theorem register?_eq_ok {α : Type} {registers : Registers α} {id : String} {a : α} :
    register? registers id = .ok a ↔ registers[id]? = some a := by
  unfold register?
  cases registers[id]? <;> simp

theorem env?_eq_ok {x : String} {e : Env} : m.env? x = .ok e ↔ m.envs.get? x = some e := by
  unfold env?
  cases m.envs.get? x <;> simp

theorem address?_eq_ok {raw : Int64} {a : Address} :
    address? raw = .ok a ↔ Address.ofRaw raw = .ok a := by
  unfold address?
  cases Address.ofRaw raw <;> simp

theorem addresses?_eq_ok {raws : List Int64} {addresses : List Address} :
    addresses? raws = .ok addresses ↔ raws.mapM Address.ofRaw = .ok addresses := by
  unfold addresses?
  cases raws.mapM Address.ofRaw <;> simp

/-- A changed store goes back to its session, unless it has a register of its own. -/
theorem putStore_eq_withSession {id : String} {s : Session} (hnone : m.stores[id]? = none)
    (hs : m.sessions[id]? = some s) (store : Store) :
    m.putStore id store = m.withSession id { s with store } := by
  have hcontains : m.stores.contains id = false := by
    simp [Std.ExtTreeMap.contains_eq_isSome_getElem?, hnone]
  unfold putStore
  rw [hcontains, Lookup.modify_eq_insert hs]
  rfl

theorem store?_of_none {id : String} (hnone : m.stores[id]? = none) :
    m.store? id = (register? m.sessions id).map Session.store := by
  unfold store?
  rw [hnone]

/-- A changed store goes back to the register or to the session where it was found. -/
theorem ends_putStore {change : StoreStep} {id : String} (htarget : change.target? = some id)
    {s store : Store} (hs : m.store? id = .ok s) (hstore : Rewrites change s store) (a : Answer) :
    m.Ends (.store change) ((m.putStore id store).answer a).value := by
  refine .moved a ?_
  -- A store register shadows the session of the same name: only without one does the session
  -- change.
  cases hown : m.stores[id]? with
  | some t =>
      have hcontains : m.stores.contains id = true := by
        simp [Std.ExtTreeMap.contains_eq_isSome_getElem?, hown]
      unfold putStore
      rw [hcontains]
      exact .still rfl rfl rfl rfl fun h => h
  | none =>
      rw [store?_of_none hown] at hs
      cases hsession : m.sessions[id]? with
      | none => simp [register?, hsession, Except.map] at hs
      | some t =>
          have hsame : t.store = s := by
            simpa only [register?, hsession, Except.map, Except.ok.injEq] using hs
          rw [putStore_eq_withSession hown hsession]
          exact .stored htarget hown hsession (hsame ▸ hstore)

/-! ## Every step ends in a move or a refusal -/

/-- Steps on sessions open them, bind names in them, enter frames and assign. -/
theorem ends_execSession (m : Machine) (step : SessionStep) :
    m.Ends (.session step) (m.execSession step).value := by
  cases step with
  | create into capacities =>
      exact .moved .done .opened
  | globalEnv id into =>
      refine .found fun s hs => ?_
      exact .moved _ (.found (.own (register?_eq_ok.1 hs)))
  | bind id name raw =>
      refine .found fun a ha => .found fun s hs => ?_
      have hsession := register?_eq_ok.1 hs
      have hbindings : bindingsIn s (.bind id name raw) = [(name, a)] := by
        simp [bindingsIn, address?_eq_ok.1 ha, Except.toOption]
      -- A plain binding leaves the store of the session as it is.
      have hmove := @Moves.defined m (.bind id name raw) id s s.store rfl hsession rfl
      rw [hbindings, withSession, Lookup.insert_eq_self hsession] at hmove
      exact .moved _ hmove
  | define id name v =>
      refine .found fun s hs => ?_
      exact .moved _ (@Moves.defined m (.define id name v) id s _ rfl (register?_eq_ok.1 hs) rfl)
  | defineMany id stem count =>
      refine .found fun s hs => ?_
      simp only [Traced.value_bind, s.value_defineMany]
      exact .moved _ (@Moves.defined m (.defineMany id stem count) id s _ rfl
        (register?_eq_ok.1 hs) rfl)
  | enter id x names values into =>
      refine .found fun s hs => .found fun e he => ?_
      have hsession := register?_eq_ok.1 hs
      simp only [Traced.value_bind]
      -- The session is put back in every case, with its old store when the call fails.
      cases howns : s.owns e with
      | false =>
          rw [Session.enter_of_not_owns howns, Traced.value_pure]
          change m.Ends _ (.error (.fault .foreign), m.withSession id s)
          rw [withSession_self hsession]
          exact .refused _
      | true =>
          by_cases hl : names.length = values.length
          · rw [Session.value_enter howns hl]
            exact .moved _ (.entered hsession (env?_eq_ok.1 he) howns hl rfl rfl)
          · rw [Session.enter_of_length_ne howns hl, Traced.value_pure]
            change m.Ends _
              (.error (.fault (.arity names.length values.length)), m.withSession id s)
            rw [withSession_self hsession]
            exact .refused _
  | lookup id x name =>
      refine .found fun s _ => .found fun e _ => ?_
      rw [Traced.value_bind]
      exact .outcome fun v _ => .answer rfl _
  | assign id x name v =>
      refine .found fun s hs => .found fun e he => ?_
      have hsession := register?_eq_ok.1 hs
      simp only [Traced.value_bind]
      cases howns : s.owns e with
      | false =>
          rw [Session.assign_of_not_owns howns, Traced.value_pure]
          change m.Ends _ (.error (.fault .foreign), m.withSession id s)
          rw [withSession_self hsession]
          exact .refused _
      | true =>
          cases hfind : m.world.find e name with
          | ok a =>
              rw [Session.value_assign_of_ok howns hfind]
              exact .moved _ (.assigned hsession (env?_eq_ok.1 he) howns hfind rfl)
          | error fault =>
              rw [Session.value_assign_of_error howns hfind]
              change m.Ends _ (.error (.fault fault), m.withSession id s)
              rw [withSession_self hsession]
              exact .refused _

/-- Steps on stores change a session at most by its store. -/
theorem ends_execStore (m : Machine) (step : StoreStep) :
    m.Ends (.store step) (m.execStore step).value := by
  cases step with
  | create into =>
      exact .moved _ (.still rfl rfl rfl rfl id)
  | copy store into =>
      refine .found fun s _ => ?_
      exact .moved _ (.still rfl rfl rfl rfl id)
  | same a b =>
      exact .found fun s _ => .found fun t _ => .answer rfl _
  | alloc store v =>
      exact .found fun s hs => ends_putStore rfl hs (.alloc s) _
  | allocMany store v count =>
      exact .found fun s hs => ends_putStore rfl hs (.allocMany s) _
  | read store raw =>
      exact .found fun a _ => .found fun s _ => .outcome fun v _ => .answer rfl _
  | write store raw v =>
      exact .found fun a ha => .found fun s hs =>
        ends_putStore rfl hs (.write s (address?_eq_ok.1 ha)) _
  | lastAddressOf store v =>
      exact .found fun s _ => .answer rfl _
  | size store =>
      exact .found fun s _ => .answer rfl _
  | cells store =>
      exact .found fun s _ => .answer rfl _

/-- Steps on environments find others, detach global frames, build frames and bind names. -/
theorem ends_execEnv (m : Machine) (step : EnvStep) :
    m.Ends (.env step) (m.execEnv step).value := by
  cases step with
  | create into =>
      exact .moved _ (.detached .create)
  | copy x into =>
      refine .found fun e he => ?_
      exact .moved _ (.found (.copy (env?_eq_ok.1 he)))
  | nest names raws x count into =>
      refine .found fun addresses ha => .found fun e he => ?_
      have hmove : (count ≠ 0 → names.length = addresses.length) →
          m.Moves (.env (.nest names raws x count into))
            (m.withFrames into e (names.zip addresses) count) :=
        .nested (env?_eq_ok.1 he) (addresses?_eq_ok.1 ha) rfl
      -- Without a frame to build, the numbers of names and addresses are never compared.
      cases count with
      | zero =>
          exact .moved _ (hmove fun h => absurd rfl h)
      | succ n =>
          by_cases hl : names.length = addresses.length
          · simp only [World.nestMany_eq names addresses hl]
            exact .moved _ (hmove fun _ => hl)
          · simp only [World.nestMany_of_length_ne hl]
            exact .refused _
  | resolve x name =>
      refine .found fun e _ => ?_
      rw [Traced.value_bind]
      exact .outcome fun a _ => .answer rfl _
  | findGlobal x name =>
      exact .found fun e _ => .outcome fun a _ => .answer rfl _
  | kind x =>
      exact .found fun e _ => .answer rfl _
  | sameFrame a b =>
      exact .found fun e _ => .found fun f _ => .answer rfl _
  | sameRoot a b =>
      exact .found fun e _ => .found fun f _ => .answer rfl _
  | bindGlobal x name raw =>
      refine .found fun a ha => .found fun e he => ?_
      exact .moved _ (.bound (env?_eq_ok.1 he) (address?_eq_ok.1 ha))
  | global x into =>
      refine .found fun e he => ?_
      exact .moved _ (.found (.global (env?_eq_ok.1 he)))
  | enclosing x into =>
      refine .found fun e he => ?_
      rcases e with ⟨frames, root⟩
      cases frames with
      | nil =>
          exact .refused .notNested
      | cons f rest =>
          have hfound : m.envs.get? x = some ⟨f :: rest, root⟩ := env?_eq_ok.1 he
          exact .moved _ (.found (@Finds.enclosing m x into ⟨rest, root⟩ f hfound))
  | describe x =>
      exact .found fun e _ => .answer rfl _

theorem Standing.insert (h : m.Standing) (id : String) {g : Globals} (hg : g.Indexed) :
    Standing { m with globals := m.globals.insert id g } := by
  intro other g' hg'
  rw [show ({ m with globals := m.globals.insert id g } : Machine).globals[other]? = _ from
    Lookup.getElem?_insert m.globals id other g] at hg'
  split at hg'
  · cases hg'
    exact hg
  · exact h other g' hg'

theorem Standing.erase (h : m.Standing) (id : String) :
    Standing { m with globals := m.globals.erase id } := by
  intro other g hg
  rw [show ({ m with globals := m.globals.erase id } : Machine).globals[other]? = _ from
    Lookup.getElem?_erase m.globals id other] at hg
  split at hg
  · cases hg
  · exact h other g hg

/-- Steps on frames in registers move nothing, but for the one that makes an environment. -/
theorem ends_execGlobals (m : Machine) (step : GlobalsStep) :
    m.Ends (.globals step) (m.execGlobals step).value := by
  cases step with
  | create into =>
      exact .moved _ (.still rfl rfl rfl rfl fun h => h.insert into Globals.indexed_empty)
  | copy id into =>
      refine .found fun g hg => ?_
      have hfound := register?_eq_ok.1 hg
      exact .moved _ (.still rfl rfl rfl rfl fun h => h.insert into (h id g hfound))
  | bind id name raw =>
      refine .found fun a _ => .found fun g hg => ?_
      have hfound := register?_eq_ok.1 hg
      exact .moved _ (.still rfl rfl rfl rfl fun h => h.insert id ((h id g hfound).push name a))
  | find id name =>
      exact .found fun g _ => .outcome fun a _ => .answer rfl _
  | describe id =>
      exact .found fun g _ => .answer rfl _
  | toEnv id into =>
      refine .found fun g hg => ?_
      exact .moved _ (.detached (.copy (register?_eq_ok.1 hg)))

theorem ends_execCell (m : Machine) (step : CellStep) :
    m.Ends (.cell step) (m.execCell step).value := by
  cases step with
  | create into n =>
      exact .moved _ (.still rfl rfl rfl rfl id)
  | share cell into =>
      refine .found fun r _ => ?_
      exact .moved _ (.still rfl rfl rfl rfl id)
  | set cell n =>
      refine .found fun r _ => ?_
      exact .moved _ (.still rfl rfl rfl rfl id)
  | get cell =>
      exact .found fun r _ => .answer rfl _
  | same a b =>
      exact .found fun r _ => .found fun s _ => .answer rfl _

/-- Dropping moves something if a session or an environment is dropped. -/
theorem ends_drop (m : Machine) (kind : Kind) (id : String) :
    m.Ends (.drop kind id) (m.drop id kind).value := by
  cases kind with
  | session => exact .moved _ .closed
  | store => exact .moved _ (.still rfl rfl rfl rfl fun h => h)
  | env => exact .moved _ .released
  | globals => exact .moved _ (.still rfl rfl rfl rfl fun h => h.erase id)
  | cell => exact .moved _ (.still rfl rfl rfl rfl fun h => h)

theorem ends_inspect (m : Machine) (kind : Kind) (id : String) :
    m.Ends (.inspect kind id) (m.inspect id kind).value := by
  cases kind with
  | session => exact .found fun s _ => .answer rfl _
  | store => exact .found fun s _ => .answer rfl _
  | env => exact .found fun e _ => .answer rfl _
  | globals => exact .found fun g _ => .answer rfl _
  | cell => exact .found fun r _ => .answer rfl _

/-- Every step ends in a refusal or in a move. -/
theorem ends_exec (m : Machine) (step : Step) : m.Ends step (m.exec step).value := by
  cases step with
  | session step => exact m.ends_execSession step
  | store step => exact m.ends_execStore step
  | env step => exact m.ends_execEnv step
  | globals step => exact m.ends_execGlobals step
  | cell step => exact m.ends_execCell step
  | drop kind id => exact m.ends_drop kind id
  | inspect kind id => exact m.ends_inspect kind id

/-- A refused step leaves the machine as it was, and any other step makes one of the moves. -/
theorem reply_cases (m : Machine) (step : Step) :
    (∃ refusal, m.reply step = .error refusal ∧ m.next step = m) ∨
      ∃ a, m.reply step = .ok a ∧ m.Moves step (m.next step) := by
  have hends := m.ends_exec step
  unfold reply next
  generalize (m.exec step).value = result at hends
  cases hends with
  | refused refusal => exact .inl ⟨refusal, rfl, rfl⟩
  | moved a hmove => exact .inr ⟨a, rfl, hmove⟩

/-- A refused step leaves the machine as it is. -/
theorem next_of_refused {refusal : Refusal} (h : m.reply step = .error refusal) :
    m.next step = m := by
  rcases m.reply_cases step with ⟨-, -, hsame⟩ | ⟨a, hok, -⟩
  · exact hsame
  · cases hok.symm.trans h

end Machine

end ScopedStore.Script
