import ScopedStore.Proofs.Addresses.Held
import ScopedStore.Proofs.Reports.Cells

/-!
# Reported addresses

A step that is refused for an address reports an integer, and one that finds or makes a cell answers
with its address. Either the integer was given to the step and is negative, or it is the index of the
address whose cell the step tried to read; it is never clamped, because no step comes by an address
that is not exact. The steps are gone through once for both.
-/

namespace ScopedStore

/-! ## Faults without an address -/

/-- A search for a name is never refused for an address. -/
theorem Globals.find_ne_illegal (g : Globals) (name : String) (raw : Int64) :
    g.find name ≠ .error (.illegalAddress raw) := by
  unfold find
  cases g.newest[name]? <;> simp

theorem World.find_ne_illegal (w : World) (e : Env) (name : String) (raw : Int64) :
    w.find e name ≠ .error (.illegalAddress raw) := by
  intro h
  cases eq_unbound_of_find h

/-- Building frames is never refused for an address. -/
theorem World.nestMany_ne_illegal (w : World) (names : List String) (addresses : List Address)
    (e : Env) (n : Nat) (raw : Int64) :
    (w.nestMany names addresses e n).1 ≠ .error (.illegalAddress raw) := by
  cases n with
  | zero => simp [nestMany]
  | succ n =>
      by_cases hl : names.length = addresses.length
      · simp [nestMany_eq names addresses hl]
      · simp [nestMany_of_length_ne hl]

namespace Session

variable (s : Session) (w : World) (e : Env) (raw : Int64)

/-- A call that allocates its cells itself has no address to be refused for. -/
theorem enter_ne_illegal (names : List String) (values : List Value) :
    (s.enter w e names values).value.1 ≠ .error (.illegalAddress raw) := by
  cases howns : s.owns e with
  | false => simp [enter_of_not_owns howns]
  | true =>
      by_cases hl : names.length = values.length
      · simp [value_enter howns hl]
      · simp [enter_of_length_ne howns hl]

/-- An assignment to a missing cell is dropped and not refused. -/
theorem assign_ne_illegal (name : String) (v : Value) :
    (s.assign w e name v).value.1 ≠ .error (.illegalAddress raw) := by
  cases howns : s.owns e with
  | false => simp [assign_of_not_owns howns]
  | true =>
      cases hfind : w.find e name with
      | ok a => simp [value_assign_of_ok howns hfind]
      | error f =>
          rw [value_assign_of_error howns hfind, World.eq_unbound_of_find hfind]
          simp

end Session

/-! ## Many cells -/

/-- The last of many cells is a cell of the grown store. -/
theorem Store.lt_of_allocMany {s : Store} {v : Value} {n : Nat} {a : Address}
    (h : (s.allocMany v n).value.1 = some a) : a.index < (s.allocMany v n).value.2.size := by
  cases n with
  | zero => cases h
  | succ n =>
      simp only [allocMany, Traced.iterate_succ, Traced.value_bind] at h ⊢
      cases h
      simp [size]

namespace Script

def Step.raws : Step → List Int64
  | .session (.bind _ _ raw) => [raw]
  | .store (.read _ raw) => [raw]
  | .store (.write _ raw _) => [raw]
  | .env (.nest _ raws _ _ _) => raws
  | .env (.bindGlobal _ _ raw) => [raw]
  | .globals (.bind _ _ raw) => [raw]
  | _ => []

namespace Machine

inductive Reads (m : Machine) : Step → Store → Address → Prop where
  | read {id : String} {raw : Int64} {s : Store} {a : Address} :
      Address.ofRaw raw = .ok a → m.store? id = .ok s → Reads m (.store (.read id raw)) s a
  | lookup {id x name : String} {s : Session} {e : Env} {a : Address} :
      m.sessions[id]? = some s → m.envs.get? x = some e → s.owns e = true →
        m.world.find e name = .ok a → Reads m (.session (.lookup id x name)) s.store a

/-- An integer for which a step is rightly refused: a negative one that it was given, or the index of
a cell that it reads and that does not exist. -/
def Accuses (m : Machine) (step : Step) (raw : Int64) : Prop :=
  (raw ∈ step.raws ∧ raw.toInt < 0) ∨
    ∃ s a, m.Reads step s a ∧ s.size ≤ a.index ∧ raw.toInt = a.index

/-- The addresses that the end of a step tells, in a refusal or in an answer, are the right ones. -/
structure TellsExactly (m : Machine) (step : Step) (result : Except Refusal Answer × Machine) :
    Prop where
  refused : ∀ raw, result.1 = .error (.fault (.illegalAddress raw)) → m.Accuses step raw
  answered : ∀ a, result.1 = .ok (.address a) ∨ result.1 = .ok (.address? (some a)) →
    result.2.Roomy → a.Exact

namespace TellsExactly

variable {m m' : Machine} {step : Step} {α : Type}

theorem address {b : Address} (h : m'.Roomy → b.Exact) :
    m.TellsExactly step (m'.answer (.address b)).value := by
  refine ⟨by simp [answer], ?_⟩
  rintro a (ha | ha) hroom
  · cases ha
    exact h hroom
  · cases ha

theorem address? {b : Option Address} (h : ∀ a, b = some a → m'.Roomy → a.Exact) :
    m.TellsExactly step (m'.answer (.address? b)).value := by
  refine ⟨by simp [answer], ?_⟩
  rintro a (ha | ha) hroom
  · cases ha
  · cases ha
    exact h a rfl hroom

/-- An answer without an address. -/
theorem answer {a : Answer} (h : ∀ b, a ≠ .address b ∧ a ≠ .address? (some b)) :
    m.TellsExactly step (m'.answer a).value := by
  refine ⟨by simp [Machine.answer], ?_⟩
  rintro b (hb | hb) _
  · exact absurd (Except.ok.inj hb) (h b).1
  · exact absurd (Except.ok.inj hb) (h b).2

/-- A step that goes on with what it found tells what the rest of it tells. -/
theorem found {x : Except Refusal α} {next : α → Effect}
    (hx : ∀ raw, x = .error (.fault (.illegalAddress raw)) → m.Accuses step raw)
    (h : ∀ a, x = .ok a → m.TellsExactly step (next a).value) :
    m.TellsExactly step (m'.found x next).value := by
  cases x with
  | ok a => exact h a rfl
  | error refusal =>
      refine ⟨fun raw hraw => hx raw ?_, ?_⟩
      · exact congrArg Except.error (Except.error.inj hraw)
      · rintro a (ha | ha) <;> cases ha

theorem register {registers : Registers α} {id : String} {next : α → Effect}
    (h : ∀ a, registers[id]? = some a → m.TellsExactly step (next a).value) :
    m.TellsExactly step (m'.found (register? registers id) next).value := by
  refine found ?_ fun a ha => h a (register?_eq_ok.1 ha)
  intro raw hraw
  unfold register? at hraw
  cases hget : registers[id]? <;> simp [hget] at hraw

theorem env {x : String} {next : Env → Effect}
    (h : ∀ e, m.envs.get? x = some e → m.TellsExactly step (next e).value) :
    m.TellsExactly step (m'.found (m.env? x) next).value := by
  refine found ?_ fun e he => h e (env?_eq_ok.1 he)
  intro raw hraw
  unfold env? at hraw
  cases hget : m.envs.get? x <;> simp [hget] at hraw

/-- A missing store is refused by its name and not for an address. -/
theorem store {id : String} {next : Store → Effect}
    (h : ∀ s, m.store? id = .ok s → m.TellsExactly step (next s).value) :
    m.TellsExactly step (m'.found (m.store? id) next).value := by
  refine found ?_ h
  intro raw hraw
  unfold store? register? at hraw
  cases hown : m.stores[id]? <;> cases hsession : m.sessions[id]? <;>
    simp [hown, hsession, Except.map] at hraw

/-- A step that takes one integer as an address. -/
theorem given {raw : Int64} {next : Address → Effect} (hmem : raw ∈ step.raws)
    (h : ∀ a, Address.ofRaw raw = .ok a → m.TellsExactly step (next a).value) :
    m.TellsExactly step (m'.found (Machine.address? raw) next).value := by
  refine found ?_ fun a ha => h a (address?_eq_ok.1 ha)
  intro raw' hraw
  cases hofRaw : Address.ofRaw raw with
  | ok a => simp [Machine.address?, hofRaw] at hraw
  | error f =>
      rcases Address.ofRaw_eq_error_iff.1 hofRaw with ⟨hneg, rfl⟩
      have heq : raw = raw' := by simpa [Machine.address?, hofRaw] using hraw
      exact .inl ⟨heq ▸ hmem, heq ▸ hneg⟩

/-- A step whose operation fails for other reasons than an address. -/
theorem outcome {x : Except Fault α} {next : α → Effect}
    (hx : ∀ raw, x ≠ .error (.illegalAddress raw))
    (h : ∀ a, x = .ok a → m.TellsExactly step (next a).value) :
    m.TellsExactly step (m'.outcome x next).value := by
  refine found ?_ ?_
  · intro raw hraw
    cases x with
    | ok a => simp at hraw
    | error f =>
        have heq : f = .illegalAddress raw := by simpa using hraw
        exact absurd (congrArg Except.error heq) (hx raw)
  · intro a ha
    cases x with
    | ok b =>
        cases ha
        exact h a rfl
    | error f => cases ha

/-- A step that reads a cell at an exact address. -/
theorem outcome_read {s : Store} {a : Address} {next : Value → Effect} (hreads : m.Reads step s a)
    (hexact : a.Exact) (h : ∀ v, m.TellsExactly step (next v).value) :
    m.TellsExactly step (m'.outcome (s.read a) next).value := by
  cases hread : s.read a with
  | ok v => exact h v
  | error f =>
      rcases Store.read_of_exact hexact hread with ⟨rfl, hindex, hle⟩
      refine ⟨?_, ?_⟩
      · intro raw hraw
        have heq : a.toInt64 = raw := by simpa [Machine.outcome] using hraw
        exact .inr ⟨s, a, hreads, hle, heq ▸ hindex⟩
      · rintro b (hb | hb) <;> cases hb

theorem stored {into : String} {e : Env} : m.TellsExactly step (m'.storeEnv into e).value :=
  .answer (by simp)

end TellsExactly

variable {m : Machine} {id : String} {s : Session} {e : Env}

/-! ## The ends of all steps -/

/-- A changed store of a machine that has room has room. -/
theorem Roomy.of_putStore {store store' : Store} (hs : m.store? id = .ok store)
    (hroom : (m.putStore id store').Roomy) : store'.size ≤ 2 ^ 63 - 1 := by
  rcases store?_cases hs with hown | ⟨hnone, t, ht, rfl⟩
  · have hcontains : m.stores.contains id = true := by
      simp [Std.ExtTreeMap.contains_eq_isSome_getElem?, hown]
    exact hroom.stores id store' (by simp [putStore, hcontains])
  · rw [putStore_eq_withSession hnone ht] at hroom
    exact hroom.sessions id { t with store := store' } (by simp [withSession])

section Ends

variable (hm : m.Valid) (h : m.HoldsExact)
include hm h

/-- Sessions allocate their cells, and the addresses that they look up were bound before. -/
theorem tells_execSession (step : SessionStep) :
    m.TellsExactly (.session step) (m.execSession step).value := by
  cases step with
  | create into capacities => exact .answer (by simp)
  | globalEnv id into => exact .register fun s _ => .stored
  | bind id name raw =>
      exact .given List.mem_cons_self fun a _ => .register fun s _ => .answer (by simp)
  | define id name v =>
      refine .register fun s hs => .address fun hafter => ?_
      have hsize := hafter.sessions id { s with store := ⟨s.store.cells.push v⟩ } (by simp)
      have hgrown : (s.store.cells.push v).size = s.store.size + 1 := Array.size_push v
      change (s.store.cells.push v).size ≤ 2 ^ 63 - 1 at hsize
      change s.store.size < 2 ^ 63
      omega
  | defineMany id stem count =>
      refine .register fun s hs => ?_
      simp only [Traced.value_bind, s.value_defineMany]
      refine .address? fun a ha hafter => ?_
      have hsize := hafter.sessions id (s.counting count) (by simp)
      rcases Option.map_eq_some_iff.1 ha with ⟨i, hi, rfl⟩
      have hlt := List.mem_range.1 (List.mem_of_getLast? hi)
      rw [s.size_counting count] at hsize
      change s.store.size + i < 2 ^ 63
      omega
  | enter id x names values into =>
      refine .register fun s _ => .env fun e _ => ?_
      exact .outcome (fun raw => s.enter_ne_illegal m.world e raw names values) fun f _ => .stored
  | lookup id x name =>
      refine .register fun s hs => .env fun e he => ?_
      simp only [Traced.value_bind]
      -- The store is read only if the root is right and the name has an address.
      cases howns : s.owns e with
      | false =>
          rw [Session.lookup_of_not_owns howns]
          exact .outcome (by simp) fun v _ => .answer (by simp)
      | true =>
          rw [Session.value_lookup howns]
          cases hfind : m.world.find e name with
          | error f =>
              rw [World.eq_unbound_of_find hfind]
              exact .outcome (by simp [Except.bind]) fun v _ => .answer (by simp)
          | ok a =>
              exact .outcome_read (.lookup hs he howns hfind) (h.exact_of_find hm he hfind)
                fun v => .answer (by simp)
  | assign id x name v =>
      refine .register fun s _ => .env fun e _ => ?_
      exact .outcome (fun raw => s.assign_ne_illegal m.world e raw name v) fun u _ => .answer (by simp)

omit hm h in
/-- Stores refuse an address by the integer that was given for it. -/
theorem tells_execStore (hroom : m.Roomy) (step : StoreStep) :
    m.TellsExactly (.store step) (m.execStore step).value := by
  cases step with
  | create into => exact .answer (by simp)
  | copy store into => exact .store fun s _ => .answer (by simp)
  | same a b => exact .store fun s _ => .store fun t _ => .answer (by simp)
  | alloc store v =>
      refine .store fun s hs => .address fun hafter => ?_
      exact (s.answersExactly).alloc v (Roomy.of_putStore hs hafter)
  | allocMany store v count =>
      refine .store fun s hs => .address? fun a ha hafter => ?_
      have hsize : (s.allocMany v count).value.2.size ≤ 2 ^ 63 - 1 := Roomy.of_putStore hs hafter
      have hlt := Store.lt_of_allocMany ha
      change a.index < 2 ^ 63
      omega
  | read store raw =>
      refine .given List.mem_cons_self fun a ha => .store fun s hs => ?_
      exact .outcome_read (.read ha hs) (Address.exact_of_ofRaw ha) fun v => .answer (by simp)
  | write store raw v =>
      exact .given List.mem_cons_self fun a _ => .store fun s _ => .answer (by simp)
  | lastAddressOf store v =>
      refine .store fun s hs => .address? fun a ha _ => ?_
      refine (s.answersExactly).found v a ?_ ha
      rcases store?_cases hs with hown | ⟨-, t, ht, rfl⟩
      · exact hroom.stores store s hown
      · exact hroom.sessions store t ht
  | size store => exact .store fun s _ => .answer (by simp)
  | cells store => exact .store fun s _ => .answer (by simp)

/-- Environments answer with addresses that were bound, which are exact. -/
theorem tells_execEnv (step : EnvStep) : m.TellsExactly (.env step) (m.execEnv step).value := by
  cases step with
  | create into => exact .stored
  | copy x into => exact .env fun e _ => .stored
  | nest names raws x count into =>
      refine .found ?_ fun addresses _ => .env fun e _ => ?_
      · intro raw hraw
        cases haddresses : raws.mapM Address.ofRaw with
        | ok addresses => simp [addresses?, haddresses] at hraw
        | error f =>
            have heq : f = .illegalAddress raw := by simpa [addresses?, haddresses] using hraw
            exact .inl (Address.of_mapM_eq_error (heq ▸ haddresses))
      · exact .outcome (fun raw => m.world.nestMany_ne_illegal names addresses e count raw)
          fun f _ => .stored
  | resolve x name =>
      refine .env fun e he => ?_
      exact .outcome (fun raw => m.world.find_ne_illegal e name raw) fun a ha =>
        .address fun _ => h.exact_of_find hm he ha
  | findGlobal x name =>
      refine .env fun e he => ?_
      exact .outcome (fun raw => (m.world.globals e.root).find_ne_illegal name raw) fun a ha =>
        .address fun _ => (h.roots e.root).exact_of_find (hm.indexed e.root) ha
  | kind x => exact .env fun e _ => .answer (by simp)
  | sameFrame a b => exact .env fun e _ => .env fun f _ => .answer (by simp)
  | sameRoot a b => exact .env fun e _ => .env fun f _ => .answer (by simp)
  | bindGlobal x name raw =>
      exact .given List.mem_cons_self fun a _ => .env fun e _ => .answer (by simp)
  | global x into => exact .env fun e _ => .stored
  | enclosing x into =>
      refine .env fun e _ => .found ?_ fun f _ => .stored
      intro raw hraw
      cases hnested : e.enclosing? <;> simp [hnested] at hraw
  | describe x => exact .env fun e _ => .answer (by simp)

theorem tells_execGlobals (step : GlobalsStep) :
    m.TellsExactly (.globals step) (m.execGlobals step).value := by
  cases step with
  | create into => exact .answer (by simp)
  | copy id into => exact .register fun g _ => .answer (by simp)
  | bind id name raw =>
      exact .given List.mem_cons_self fun a _ => .register fun g _ => .answer (by simp)
  | find id name =>
      refine .register fun g hg => ?_
      exact .outcome (fun raw => g.find_ne_illegal name raw) fun a ha =>
        .address fun _ => (h.standing id g hg).exact_of_find (hm.standing id g hg) ha
  | describe id => exact .register fun g _ => .answer (by simp)
  | toEnv id into => exact .register fun g _ => .stored

omit hm h in
theorem tells_execCell (step : CellStep) :
    m.TellsExactly (.cell step) (m.execCell step).value := by
  cases step with
  | create into n => exact .answer (by simp)
  | same a b => exact .register fun r _ => .register fun t _ => .answer (by simp)
  | _ => exact .register fun r _ => .answer (by simp)

/-- Every step tells its addresses exactly. -/
theorem tells_exec (hroom : m.Roomy) (step : Step) : m.TellsExactly step (m.exec step).value := by
  cases step with
  | session step => exact tells_execSession hm h step
  | store step => exact tells_execStore hroom step
  | env step => exact tells_execEnv hm h step
  | globals step => exact tells_execGlobals hm h step
  | cell step => exact tells_execCell step
  | drop kind id => cases kind <;> exact .answer (by simp)
  | inspect kind id =>
      cases kind with
      | store => exact .store fun s _ => .answer (by simp)
      | env => exact .env fun e _ => .answer (by simp)
      | _ => exact .register fun _ _ => .answer (by simp)

end Ends

/-! ## Whole scripts -/

/-- A step that reads a cell answers what the store has there. -/
theorem reply_of_reads {step : Step} {s : Store} {a : Address} (hreads : m.Reads step s a) :
    m.reply step = ((s.read a).mapError .fault).map .value := by
  cases hreads with
  | read ha hs =>
      simp only [reply, exec, execStore, address?, ha, hs, mapError_ok, found_ok]
      cases s.read a <;> rfl
  | lookup hs he howns hfind =>
      rw [reply_lookup hs he, Session.value_lookup howns, hfind]
      rfl

/-- Integers are turned into addresses and back without a change, in the order that they have; every
store answers for the integers from zero to its size and refuses all others as they were given; and
as long as no store has more cells than a vector can have, no script ever comes by an address that
is reported as another one. -/
theorem addresses_are_exact :
    Address.Converts ∧ (∀ s : Store, s.AnswersExactly) ∧
    ∀ steps : List Step, ({} : Machine).RoomyAlong steps →
      let m := ({} : Machine).last steps
      m.HoldsExact ∧ ∀ step : Step,
        (∀ raw, m.reply step = .error (.fault (.illegalAddress raw)) → m.Accuses step raw) ∧
        (∀ a, m.reply step = .ok (.address a) ∨ m.reply step = .ok (.address? (some a)) →
          (m.next step).Roomy → a.Exact) ∧
        ∀ s a, m.Reads step s a →
          a.Exact ∧ m.reply step = ((s.read a).mapError .fault).map .value := by
  refine ⟨Address.converts, Store.answersExactly, ?_⟩
  intro steps hroom m
  have hm : m.Valid := valid_empty.last steps
  have h : m.HoldsExact := HoldsExact.empty.last steps valid_empty hroom
  refine ⟨h, fun step => ?_⟩
  have htells := tells_exec hm h (RoomyAlong.last steps hroom) step
  refine ⟨htells.refused, htells.answered, fun s a hreads => ⟨?_, reply_of_reads hreads⟩⟩
  cases hreads with
  | read ha _ => exact Address.exact_of_ofRaw ha
  | lookup _ he _ hfind => exact h.exact_of_find hm he hfind

/-- The largest integer that can be given is bound to a name, and the look-up of the name reports it
unchanged. -/
theorem largest_address_is_reported :
    let steps : List Step := [.session (.create "a" {}), .session (.globalEnv "a" "g"),
      .session (.bind "a" "n" Int64.maxValue)]
    let m := ({} : Machine).last steps
    ({} : Machine).RoomyAlong steps ∧
      m.reply (.session (.lookup "a" "g" "n")) =
        .error (.fault (.illegalAddress Int64.maxValue)) ∧
      m.Accuses (.session (.lookup "a" "g" "n")) Int64.maxValue := by
  intro steps m
  have hroom : ({} : Machine).RoomyAlong steps :=
    ⟨by decide, by decide, by decide, show Roomy _ by decide⟩
  have hreply : m.reply (.session (.lookup "a" "g" "n")) =
      .error (.fault (.illegalAddress Int64.maxValue)) := by rfl
  rcases addresses_are_exact with ⟨-, -, hscripts⟩
  rcases hscripts steps hroom with ⟨-, htells⟩
  exact ⟨hroom, hreply, (htells (.session (.lookup "a" "g" "n"))).1 _ hreply⟩

end Machine

end Script

end ScopedStore
