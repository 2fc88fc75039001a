import ScopedStore.Proofs.Faults.Refused
import ScopedStore.Proofs.Script.Calls
import ScopedStore.Proofs.Script.Valid

/-!
# Which fault comes first

A call on a session can fail for several reasons at once. `LookupFault` says which of them a look-up
answers with: another root before a name that nothing binds, and that before a cell that does not
exist. Assignment fails as a look-up does, but never for the cell, and entering a frame compares the
lengths of its lists only if the root is right. Whatever the fault, the machine is left as it was.
-/

namespace ScopedStore

/-! ## Names that nothing binds -/

/-- No frame of a chain binds the name, the global frame included. -/
def World.Unbound (w : World) (e : Env) (name : String) : Prop :=
  (∀ f ∈ e.frames, name ∉ f.names) ∧ name ∉ (w.globals e.root).bindings.map Prod.fst

/-- What a look-up fails with. Each cause counts only where the ones above it do not hold. -/
inductive LookupFault (w : World) (s : Session) (e : Env) (name : String) : Fault → Prop where
  | foreign : e.root ≠ s.root → LookupFault w s e name .foreign
  | unbound : e.root = s.root → w.Unbound e name → LookupFault w s e name (.unbound name)
  | illegal {a : Address} : e.root = s.root → w.find e name = .ok a → s.store.size ≤ a.index →
      LookupFault w s e name (.illegalAddress a.toInt64)

namespace World

variable {w : World} {s : Session} {e : Env} {name : String}

/-- No frame binds a name exactly when the search of the whole chain comes to nothing. -/
theorem unbound_iff : w.Unbound e name ↔
    (e.find? name).or ((w.globals e.root).bindings.lookup name) = none := by
  simp only [Unbound, Option.or_eq_none_iff, Env.find?_eq_none_iff, lookup_eq_none_iff]

/-- A search finds an address, or reports the name exactly when nothing binds it. -/
theorem find_cases (h : (w.globals e.root).Indexed) (name : String) :
    (∃ a, w.find e name = .ok a ∧ ¬ w.Unbound e name) ∨
      (w.find e name = .error (.unbound name) ∧ w.Unbound e name) := by
  have hfind := find_eq_found h name
  cases hfound : (e.find? name).or ((w.globals e.root).bindings.lookup name) with
  | some a =>
      refine .inl ⟨a, ?_, ?_⟩
      · simpa only [hfound, Globals.found_some] using hfind
      · simp [unbound_iff, hfound]
  | none =>
      refine .inr ⟨?_, unbound_iff.2 hfound⟩
      simpa only [hfound, Globals.found_none] using hfind

end World

namespace Session

variable {w : World} {s : Session} {e : Env} {name : String}

/-- A look-up fails with the first cause that there is, and for no other reason. -/
theorem lookup_eq_error_iff (h : (w.globals e.root).Indexed) (f : Fault) :
    (s.lookup w e name).value = .error f ↔ LookupFault w s e name f := by
  cases howns : s.owns e with
  | false =>
      have hroot : e.root ≠ s.root := of_decide_eq_false howns
      simp only [lookup_of_not_owns howns, Traced.value_pure, Except.error.injEq]
      constructor
      · rintro rfl
        exact .foreign hroot
      · rintro (_ | ⟨hsame, _⟩ | ⟨hsame, _, _⟩)
        · rfl
        · exact absurd hsame hroot
        · exact absurd hsame hroot
  | true =>
      have hroot : e.root = s.root := owns_iff.1 howns
      rcases World.find_cases h name with ⟨a, ha, hbound⟩ | ⟨hfault, hunbound⟩
      · have hlookup : (s.lookup w e name).value = s.store.read a := by
          simp only [value_lookup howns, ha, Except.bind]
        rcases Nat.lt_or_ge a.index s.store.size with hlt | hle
        · -- A name that is bound to a cell of the store is looked up without a fault.
          have hread : s.store.read a = .ok s.store.cells[a.index] :=
            Store.read_eq_ok_iff.2 (Array.getElem?_eq_getElem hlt)
          simp only [hlookup, hread, reduceCtorEq, false_iff]
          rintro (hforeign | ⟨_, hunbound⟩ | ⟨_, hb, hle⟩)
          · exact hforeign hroot
          · exact hbound hunbound
          · have hab : a = _ := Except.ok.inj (ha.symm.trans hb)
            subst hab
            exact absurd hlt (Nat.not_lt.2 hle)
        · simp only [hlookup, Store.read_of_size_le hle, Except.error.injEq]
          constructor
          · rintro rfl
            exact .illegal hroot ha hle
          · rintro (hforeign | ⟨_, hunbound⟩ | ⟨_, hb, _⟩)
            · exact absurd hroot hforeign
            · exact absurd hunbound hbound
            · have hab : a = _ := Except.ok.inj (ha.symm.trans hb)
              exact congrArg (fun b : Address => Fault.illegalAddress b.toInt64) hab
      · have hlookup : (s.lookup w e name).value = .error (.unbound name) := by
          simp only [value_lookup howns, hfault, Except.bind]
        simp only [hlookup, Except.error.injEq]
        constructor
        · rintro rfl
          exact .unbound hroot hunbound
        · rintro (hforeign | _ | ⟨_, hb, _⟩)
          · exact absurd hroot hforeign
          · rfl
          · cases hfault.symm.trans hb

/-- Assignment succeeds wherever a look-up finds a cell or an address without one. -/
theorem assign_eq_of_lookup (h : (w.globals e.root).Indexed) (v : Value) :
    (s.assign w e name v).value.1 =
      match (s.lookup w e name).value with
      | .error (.illegalAddress _) => .ok ()
      | .error f => .error f
      | .ok _ => .ok () := by
  cases howns : s.owns e with
  | false => simp [lookup_of_not_owns howns, assign_of_not_owns howns]
  | true =>
      rcases World.find_cases h name with ⟨a, ha, _⟩ | ⟨hfault, _⟩
      · simp only [value_assign_of_ok howns ha, value_lookup howns, ha, Except.bind, Store.read]
        cases s.store.cells[a.index]? <;> rfl
      · simp [value_assign_of_error howns hfault, value_lookup howns, hfault, Except.bind]

end Session

namespace Script.Machine

/-! ## The order of faults -/

/-- The faults of calls on a session with an environment, in their order. -/
structure FaultsInOrder (m : Machine) (id x : String) (s : Session) (e : Env) : Prop where
  lookup : ∀ (name : String) (f : Fault),
    m.reply (.session (.lookup id x name)) = .error (.fault f) ↔ LookupFault m.world s e name f
  lookup_ok : ∀ name : String, (∀ f, ¬ LookupFault m.world s e name f) →
    ∃ v, m.reply (.session (.lookup id x name)) = .ok (.value v)
  assign : ∀ (name : String) (v : Value), m.reply (.session (.assign id x name v)) =
    match m.reply (.session (.lookup id x name)) with
    | .error (.fault (.illegalAddress _)) => .ok .done
    | .error refusal => .error refusal
    | .ok _ => .ok .done
  enter_foreign : ∀ (names : List String) (values : List Value) (into : String),
    m.reply (.session (.enter id x names values into)) = .error (.fault .foreign) ↔
      e.root ≠ s.root
  enter_arity : ∀ (names : List String) (values : List Value) (into : String) (n k : Nat),
    m.reply (.session (.enter id x names values into)) = .error (.fault (.arity n k)) ↔
      e.root = s.root ∧ names.length ≠ values.length ∧ n = names.length ∧ k = values.length
  enter_ok : ∀ (names : List String) (values : List Value) (into : String),
    e.root = s.root → names.length = values.length →
      m.reply (.session (.enter id x names values into)) = .ok (.depth (e.depth + 1))

variable {m : Machine} {id x : String} {s : Session} {e : Env}

/-- A fault of a call is the reply to it. -/
theorem mapped_eq_fault {α : Type} {result : Except Fault α} {answer : α → Answer} {f : Fault} :
    (result.mapError Refusal.fault).map answer = .error (.fault f) ↔ result = .error f := by
  cases result <;> simp [Except.map]

/-- The lengths are told as they are, and only if the root is right. -/
theorem enter_eq_arity (w : World) (names : List String) (values : List Value) (n k : Nat) :
    (s.enter w e names values).value.1 = .error (.arity n k) ↔
      e.root = s.root ∧ names.length ≠ values.length ∧ n = names.length ∧ k = values.length := by
  cases howns : s.owns e with
  | false =>
      have hroot : e.root ≠ s.root := of_decide_eq_false howns
      simp [Session.enter_of_not_owns howns, hroot]
  | true =>
      have hroot : e.root = s.root := Session.owns_iff.1 howns
      by_cases hl : names.length = values.length
      · simp [Session.value_enter howns hl, hl]
      · simp [Session.enter_of_length_ne howns hl, hroot, hl, eq_comm]

/-- In a valid machine every call on a session fails in this order. -/
theorem faultsInOrder (hm : m.Valid) (hs : m.sessions[id]? = some s)
    (he : m.envs.get? x = some e) : m.FaultsInOrder id x s e where
  lookup := by
    intro name f
    simp only [reply_lookup hs he, mapped_eq_fault]
    exact Session.lookup_eq_error_iff (hm.indexed e.root) f
  lookup_ok := by
    intro name hnone
    cases hlookup : (s.lookup m.world e name).value with
    | ok v => exact ⟨v, by simp [reply_lookup hs he, hlookup, Except.map]⟩
    | error f => exact absurd ((Session.lookup_eq_error_iff (hm.indexed e.root) f).1 hlookup) (hnone f)
  assign := by
    intro name v
    simp only [reply_assign hs he, reply_lookup hs he,
      Session.assign_eq_of_lookup (hm.indexed e.root) v]
    cases (s.lookup m.world e name).value with
    | ok u => rfl
    | error f => cases f <;> rfl
  enter_foreign := by
    intro names values into
    simp only [reply_enter hs he, mapped_eq_fault]
    exact enter_eq_foreign m.world names values
  enter_arity := by
    intro names values into n k
    simp only [reply_enter hs he, mapped_eq_fault]
    exact enter_eq_arity m.world names values n k
  enter_ok := by
    intro names values into hroot hl
    exact reply_enter_of_length_eq hs he (Session.owns_iff.2 hroot) hl into

/-- After any script: a step that is refused leaves everything as it was and has reported neither a
new cell nor a new binding, and the calls on a session fail in the order of their checks. -/
theorem refusal_changes_nothing (pre : List Step) :
    let m := ({} : Machine).last pre
    (∀ (step : Step) (refusal : Refusal), m.reply step = .error refusal →
      m.next step = m ∧ ∀ event ∈ (m.exec step).events,
        event.title ≠ "store extended" ∧ event.title ≠ "global binding added") ∧
      ∀ (id x : String) (s : Session) (e : Env), m.sessions[id]? = some s →
        m.envs.get? x = some e → m.FaultsInOrder id x s e := by
  intro m
  have hm : m.Valid := valid_empty.last pre
  refine ⟨?_, fun id x s e hs he => faultsInOrder hm hs he⟩
  intro step refusal hrefused
  refine ⟨next_of_refused hrefused, ?_⟩
  intro event hevent
  rcases m.onlySearches_exec step refusal hrefused event hevent with ⟨name, rfl⟩
  exact ⟨by simp [Event.title], by simp [Event.title]⟩

/-- A name bound to a cell that does not exist: a look-up fails for the cell where an assignment
does not fail, and entering a frame with too few values allocates nothing. -/
theorem refusal_of_dangling_name :
    let pre : List Step := [.session (.create "a" {}), .session (.globalEnv "a" "g"),
      .session (.bind "a" "n" 5)]
    let m := ({} : Machine).last pre
    let enter : Step := .session (.enter "a" "g" ["p"] [] "f")
    m.reply (.session (.lookup "a" "g" "n")) = .error (.fault (.illegalAddress 5)) ∧
      m.reply (.session (.assign "a" "g" "n" .void)) = .ok .done ∧
      m.reply enter = .error (.fault (.arity 1 0)) ∧ m.next enter = m := by
  intro pre m enter
  rcases refusal_changes_nothing pre with ⟨hkept, hfaults⟩
  have horder := hfaults "a" "g" { root := ⟨0⟩ } (.ofRoot ⟨0⟩) (by rfl) (by rfl)
  have hlookup : m.reply (.session (.lookup "a" "g" "n")) = .error (.fault (.illegalAddress 5)) :=
    (horder.lookup "n" (.illegalAddress 5)).2 (.illegal (a := ⟨5⟩) rfl (by rfl) (Nat.zero_le 5))
  have henter : m.reply enter = .error (.fault (.arity 1 0)) :=
    (horder.enter_arity ["p"] [] "f" 1 0).2 ⟨rfl, by decide, rfl, rfl⟩
  refine ⟨hlookup, (horder.assign "n" .void).trans ?_, henter, (hkept enter _ henter).1⟩
  rw [show (({} : Machine).last pre).reply _ = _ from hlookup]

end Script.Machine

end ScopedStore
