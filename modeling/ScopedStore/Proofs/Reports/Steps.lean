import ScopedStore.Proofs.Reports.Operations

/-!
# What the steps report

Most steps leave all stores and all global frames alone, and report searches at most. Of the others,
a step either tries a write to a cell or only makes stores and frames larger or new; the last kind
reports nothing but that. The events of a step that calls an operation are the events of the
operation.
-/

namespace ScopedStore

/-- Building nested frames leaves the global frames alone. -/
theorem World.roots_nestMany (names : List String) (addresses : List Address) (n : Nat)
    (w : World) (e : Env) : (w.nestMany names addresses e n).2.roots = w.roots := by
  cases n with
  | zero => rfl
  | succ n =>
      by_cases hl : names.length = addresses.length
      · simp [nestMany_eq names addresses hl]
      · simp [nestMany_of_length_ne hl]

namespace Script

/-- Whether a step leaves all stores and all global frames alone, whatever the machine. -/
def Step.plain : Step → Bool
  | .session (.globalEnv _ _) => true
  | .session (.lookup _ _ _) => true
  | .session _ => false
  | .store (.create _) => false
  | .store (.copy _ _) => false
  | .store (.alloc _ _) => false
  | .store (.allocMany _ _ _) => false
  | .store (.write _ _ _) => false
  | .env (.create _) => false
  | .env (.bindGlobal _ _ _) => false
  | .globals (.find _ _) => true
  | .globals (.describe _) => true
  | .globals _ => false
  | .drop .session _ => false
  | .drop .store _ => false
  | .drop .globals _ => false
  | _ => true

def Step.overwrites : Step → Bool
  | .session (.assign _ _ _ _) => true
  | .store (.write _ _ _) => true
  | _ => false

namespace Machine

/-- The end of a step reports nothing if its answer does not. -/
theorem events_outcome {m : Machine} {α : Type} {x : Except Fault α} {next : α → Effect}
    (h : ∀ a, (next a).events = #[]) : (m.outcome x next).events = #[] := by
  cases x with
  | ok a => exact h a
  | error fault => rfl

/-- The name that a step searches for. A session makes a search only if the environment that it is
given is rooted in its own global frame. -/
inductive Asks (m : Machine) : Step → String → Prop where
  | resolve {x name : String} {e : Env} :
      m.envs.get? x = some e → Asks m (.env (.resolve x name)) name
  | lookup {id x name : String} {s : Session} {e : Env} :
      m.sessions[id]? = some s → m.envs.get? x = some e → s.owns e = true →
        Asks m (.session (.lookup id x name)) name
  | assign {id x name : String} {v : Value} {s : Session} {e : Env} :
      m.sessions[id]? = some s → m.envs.get? x = some e → s.owns e = true →
        Asks m (.session (.assign id x name v)) name

def OnlyAsked (m : Machine) (step : Step) (events : Array Event) : Prop :=
  ∀ event ∈ events, ∃ name, m.Asks step name ∧ event = .resolving name

theorem onlyAsked_nothing (m : Machine) (step : Step) : m.OnlyAsked step #[] := by
  intro event hevent
  simp at hevent

theorem onlyAsked_resolving {m : Machine} {step : Step} {name : String} (h : m.Asks step name) :
    m.OnlyAsked step #[.resolving name] := by
  intro event hevent
  exact ⟨name, h, by simpa using hevent⟩

structure Plain (m : Machine) (step : Step) (effect : Effect) : Prop where
  roots : effect.value.2.world.roots = m.world.roots
  sessions : effect.value.2.sessions = m.sessions
  stores : effect.value.2.stores = m.stores
  globals : effect.value.2.globals = m.globals
  events : m.OnlyAsked step effect.events

namespace Plain

variable {m : Machine} {step : Step} {α : Type}

/-- A step that ends without a report and without a change of stores and frames. -/
theorem of_same {m' : Machine} (a : Except Refusal Answer)
    (hroots : m'.world.roots = m.world.roots) (hsessions : m'.sessions = m.sessions)
    (hstores : m'.stores = m.stores) (hglobals : m'.globals = m.globals) :
    m.Plain step (pure (a, m')) :=
  ⟨hroots, hsessions, hstores, hglobals, m.onlyAsked_nothing step⟩

theorem answer (a : Answer) : m.Plain step (m.answer a) :=
  .of_same (.ok a) rfl rfl rfl rfl

/-- A step that does not find what it needs changes nothing and reports nothing. -/
theorem found {x : Except Refusal α} {next : α → Effect}
    (h : ∀ a, x = .ok a → m.Plain step (next a)) : m.Plain step (m.found x next) := by
  cases x with
  | ok a => exact h a rfl
  | error refusal => exact .of_same (.error refusal) rfl rfl rfl rfl

/-- A step whose operation fails changes nothing more and reports nothing more. -/
theorem outcome {x : Except Fault α} {next : α → Effect}
    (h : ∀ a, x = .ok a → m.Plain step (next a)) : m.Plain step (m.outcome x next) := by
  cases x with
  | ok a => exact h a rfl
  | error fault => exact .of_same (.error (.fault fault)) rfl rfl rfl rfl

/-- An operation that reports the step's searches only, before the rest of the step. -/
theorem bind {op : Traced α} {rest : α → Effect} (hop : m.OnlyAsked step op.events)
    (hrest : m.Plain step (rest op.value)) : m.Plain step (op >>= rest) := by
  refine ⟨hrest.roots, hrest.sessions, hrest.stores, hrest.globals, ?_⟩
  intro event hevent
  simp only [Traced.events_bind, Array.mem_append] at hevent
  rcases hevent with hevent | hevent
  · exact hop event hevent
  · exact hrest.events event hevent

end Plain

/-- A look-up reports the search that the session makes, if it makes one. -/
theorem onlyAsked_lookup {m : Machine} {id x : String} {s : Session} {e : Env}
    (hs : m.sessions[id]? = some s) (he : m.envs.get? x = some e) (name : String) :
    m.OnlyAsked (.session (.lookup id x name)) (s.lookup m.world e name).events := by
  cases howns : s.owns e with
  | false => simpa [Session.lookup_of_not_owns howns] using m.onlyAsked_nothing _
  | true =>
      simpa only [Session.events_lookup howns] using onlyAsked_resolving (.lookup hs he howns)

/-- The steps that are plain do leave all stores and frames alone. -/
theorem plain_exec (m : Machine) {step : Step} (h : step.plain = true) :
    m.Plain step (m.exec step) := by
  cases step with
  | session step =>
      cases step with
      | globalEnv id into => exact .found fun s _ => .of_same _ rfl rfl rfl rfl
      | lookup id x name =>
          exact .found fun s hs => .found fun e he =>
            .bind (onlyAsked_lookup (register?_eq_ok.1 hs) (env?_eq_ok.1 he) name)
              (.outcome fun v _ => .answer _)
      | _ => cases h
  | store step =>
      cases step with
      | same a b => exact .found fun s _ => .found fun t _ => .answer _
      | read store raw =>
          exact .found fun a _ => .found fun s _ => .outcome fun v _ => .answer _
      | lastAddressOf store v => exact .found fun s _ => .answer _
      | size store => exact .found fun s _ => .answer _
      | cells store => exact .found fun s _ => .answer _
      | _ => cases h
  | env step =>
      cases step with
      | copy x into => exact .found fun e _ => .of_same _ rfl rfl rfl rfl
      | nest names raws x count into =>
          refine .found fun addresses _ => .found fun e _ => ?_
          -- Frames are built in a machine with another world, but with the same global frames.
          have hroots := World.roots_nestMany names addresses count m.world e
          generalize m.world.nestMany names addresses e count = built at hroots
          rcases built with ⟨nested, world⟩
          cases nested with
          | ok f => exact .of_same (.ok (.depth f.depth)) hroots rfl rfl rfl
          | error fault => exact .of_same (.error (.fault fault)) hroots rfl rfl rfl
      | resolve x name =>
          exact .found fun e he => .bind (onlyAsked_resolving (.resolve (env?_eq_ok.1 he)))
            (.outcome fun a _ => .answer _)
      | findGlobal x name => exact .found fun e _ => .outcome fun a _ => .answer _
      | kind x => exact .found fun e _ => .answer _
      | sameFrame a b => exact .found fun e _ => .found fun f _ => .answer _
      | sameRoot a b => exact .found fun e _ => .found fun f _ => .answer _
      | global x into => exact .found fun e _ => .of_same _ rfl rfl rfl rfl
      | enclosing x into =>
          exact .found fun e _ => .found fun f _ => .of_same _ rfl rfl rfl rfl
      | describe x => exact .found fun e _ => .answer _
      | _ => cases h
  | globals step =>
      cases step with
      | find id name => exact .found fun g _ => .outcome fun a _ => .answer _
      | describe id => exact .found fun g _ => .answer _
      | _ => cases h
  | cell step =>
      cases step with
      | create into n => exact .of_same _ rfl rfl rfl rfl
      | share cell into => exact .found fun r _ => .of_same _ rfl rfl rfl rfl
      | set cell n => exact .found fun r _ => .of_same _ rfl rfl rfl rfl
      | get cell => exact .found fun r _ => .answer _
      | same a b => exact .found fun r _ => .found fun s _ => .answer _
  | drop kind id =>
      cases kind with
      | env => exact .of_same _ rfl rfl rfl rfl
      | cell => exact .of_same _ rfl rfl rfl rfl
      | _ => cases h
  | inspect kind id => cases kind <;> exact .found fun _ _ => .answer _

/-! ## The three kinds of steps -/

variable {m : Machine} {step : Step} {id x name : String} {s : Session} {e : Env}

/-- A step leaves stores and frames alone, or it writes to cells that exist, or else it can only
make stores and frames larger or new. -/
theorem step_cases (step : Step) :
    step.plain = true ∨ (step.plain = false ∧ step.overwrites = false) ∨
      (∃ id x name v, step = .session (.assign id x name v)) ∨
        ∃ id raw v, step = .store (.write id raw v) := by
  cases hplain : step.plain with
  | true => exact .inl rfl
  | false =>
      cases hwrites : step.overwrites with
      | false => exact .inr (.inl ⟨rfl, rfl⟩)
      | true =>
          cases step with
          | session step =>
              cases step with
              | assign id x name v => exact .inr (.inr (.inl ⟨id, x, name, v, rfl⟩))
              | _ => cases hwrites
          | store step =>
              cases step with
              | write id raw v => exact .inr (.inr (.inr ⟨id, raw, v, rfl⟩))
              | _ => cases hwrites
          | _ => cases hwrites

section Growing

variable {ρ : Type} {kind : Event → Option ρ}

theorem reports_found {α : Type} {y : Except Refusal α} {next : α → Effect}
    (h : ∀ a, y = .ok a → (next a).reports kind = []) : (m.found y next).reports kind = [] := by
  cases y with
  | ok a => exact h a rfl
  | error refusal => rfl

/-- A step that only makes stores and frames larger, or makes new ones, reports nothing but that. -/
theorem reports_of_growing (hopened : ∀ capacities, kind (.sessionCreated capacities) = none)
    (hcell : ∀ a size, kind (.cellAllocated a size) = none)
    (hbound : ∀ name a shadows, kind (.nameBound name a shadows) = none)
    (hplain : step.plain = false) (hwrites : step.overwrites = false) :
    (m.exec step).reports kind = [] := by
  cases step with
  | session step =>
      cases step with
      | create into capacities =>
          simp [Traced.reports, exec, execSession, Session.create, answer, hopened]
      | bind id name raw =>
          refine reports_found fun a _ => reports_found fun s _ => ?_
          simp [Session.bind, World.bind, answer, hbound]
      | define id name v =>
          refine reports_found fun s _ => ?_
          simp [Traced.reports, Session.events_define, answer, hcell, hbound]
      | defineMany id stem count =>
          refine reports_found fun s _ => ?_
          rw [Traced.reports_bind, Session.reports_defineMany hcell hbound]
          rfl
      | enter id x names values into =>
          refine reports_found fun s _ => reports_found fun e _ => ?_
          rw [Traced.reports_bind, Session.reports_enter hcell]
          exact Traced.reports_of_silent kind (events_outcome fun _ => rfl)
      | assign id x name v => cases hwrites
      | _ => cases hplain
  | store step =>
      cases step with
      | create into => rfl
      | copy store into => exact reports_found fun s _ => rfl
      | alloc store v =>
          refine reports_found fun s _ => ?_
          simp [Traced.reports, answer, hcell]
      | allocMany store v count =>
          refine reports_found fun s _ => ?_
          rw [Traced.reports_bind, Store.reports_of_cells_eq_nil hcell (s.events_allocMany v count)]
          rfl
      | write store raw v => cases hwrites
      | _ => cases hplain
  | env step =>
      cases step with
      | create into => rfl
      | bindGlobal x name raw =>
          refine reports_found fun a _ => reports_found fun e _ => ?_
          simp [World.bind, answer, hbound]
      | _ => cases hplain
  | globals step =>
      cases step with
      | create into => rfl
      | copy id into => exact reports_found fun g _ => rfl
      | bind id name raw =>
          refine reports_found fun a _ => reports_found fun g _ => ?_
          simp [Globals.bind, answer, hbound]
      | toEnv id into => exact reports_found fun g _ => rfl
      | _ => cases hplain
  | drop kind id => cases kind <;> rfl
  | _ => cases hplain

end Growing

/-! ## The events of single steps -/

/-- A step on a store reports what the write reports. -/
theorem events_exec_write {raw : Int64} {a : Address} {store : Store}
    (ha : Address.ofRaw raw = .ok a) (hs : m.store? id = .ok store) (v : Value) :
    (m.exec (.store (.write id raw v))).events = (store.write a v).events := by
  simp [exec, execStore, address?, ha, hs, answer]

/-- A search along a chain is reported whatever it comes to. -/
theorem events_exec_resolve (he : m.envs.get? x = some e) (name : String) :
    (m.exec (.env (.resolve x name))).events = #[.resolving name] := by
  simp only [exec, execEnv, env?, he, found_ok, Traced.events_bind]
  rw [events_outcome fun _ => rfl, World.events_resolve, Array.append_empty]

/-- A step that looks a name up reports what the look-up reports. -/
theorem events_exec_lookup (hs : m.sessions[id]? = some s) (he : m.envs.get? x = some e)
    (name : String) : (m.exec (.session (.lookup id x name))).events =
      (s.lookup m.world e name).events := by
  simp only [exec, execSession, register?, env?, hs, he, found_ok, Traced.events_bind]
  rw [events_outcome fun _ => rfl, Array.append_empty]

/-- A step that assigns to a name reports what the assignment reports. -/
theorem events_exec_assign (hs : m.sessions[id]? = some s) (he : m.envs.get? x = some e)
    (name : String) (v : Value) : (m.exec (.session (.assign id x name v))).events =
      (s.assign m.world e name v).events := by
  simp only [exec, execSession, register?, env?, hs, he, found_ok, Traced.events_bind]
  rw [events_outcome fun _ => rfl, Array.append_empty]

theorem events_exec_define (hs : m.sessions[id]? = some s) (name : String) (v : Value) :
    (m.exec (.session (.define id name v))).events = (s.define m.world name v).events := by
  simp [exec, execSession, register?, hs, answer]

/-- A step that enters a frame reports what the call reports. -/
theorem events_exec_enter (hs : m.sessions[id]? = some s) (he : m.envs.get? x = some e)
    (names : List String) (values : List Value) (into : String) :
    (m.exec (.session (.enter id x names values into))).events =
      (s.enter m.world e names values).events := by
  simp only [exec, execSession, register?, env?, hs, he, found_ok, Traced.events_bind]
  rw [events_outcome fun _ => rfl, Array.append_empty]

/-- A step on a store that comes to no write reports nothing. -/
theorem events_write_cases (m : Machine) (id : String) (raw : Int64) (v : Value) :
    (m.exec (.store (.write id raw v))).events = #[] ∨
      ∃ a store, Address.ofRaw raw = .ok a ∧ m.store? id = .ok store := by
  cases ha : Address.ofRaw raw with
  | error fault => exact .inl (by simp [exec, execStore, address?, ha])
  | ok a =>
      cases hs : m.store? id with
      | error refusal => exact .inl (by simp [exec, execStore, address?, ha, hs])
      | ok store => exact .inr ⟨a, store, rfl, rfl⟩

/-- An assignment that comes to no search reports nothing. -/
theorem events_assign_cases (m : Machine) (id x name : String) (v : Value) :
    (m.exec (.session (.assign id x name v))).events = #[] ∨
      ∃ s e, m.sessions[id]? = some s ∧ m.envs.get? x = some e ∧ s.owns e = true := by
  cases hs : m.sessions[id]? with
  | none => exact .inl (by simp [exec, execSession, register?, hs])
  | some s =>
      cases he : m.envs.get? x with
      | none => exact .inl (by simp [exec, execSession, register?, env?, hs, he])
      | some e =>
          cases howns : s.owns e with
          | false =>
              refine .inl ?_
              rw [events_exec_assign hs he, Session.assign_of_not_owns howns]
              rfl
          | true => exact .inr ⟨s, e, rfl, rfl, howns⟩

end Machine

end Script

end ScopedStore
