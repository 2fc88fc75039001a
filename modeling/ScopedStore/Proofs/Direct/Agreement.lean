import Mathlib.Data.List.Nodup
import Mathlib.Data.List.Pairwise
import ScopedStore.Proofs.Direct.Refinement

/-!
# Runs of an evaluator and of scopes with values

`Agrees` relates an evaluator to scopes that hold their values directly. A fresh evaluator agrees
with empty scopes, and one call answers the same in both and keeps the agreement; so every
sequence of calls has the same outcomes. On the way the bindings of an evaluator stay separate: no
two of them ever hold the same address.
-/

namespace ScopedStore.Direct

namespace Evaluator

def bindings (x : Evaluator) : List (String × Address) :=
  (x.world.globals x.session.root).bindings

def addresses (x : Evaluator) : List Address :=
  x.entered.flatMap ownAddresses ++ x.bindings.map Prod.snd

end Evaluator

/-- An evaluator and scopes with values that stand for each other. -/
structure Agrees (x : Evaluator) (p : Scopes) : Prop where
  /-- The global frame of the session exists in the world. -/
  live : (x.world.roots.get? x.session.root).isSome
  indexed : (x.world.globals x.session.root).Indexed
  globals : p.globals = shown x.session.store x.bindings
  nested : Mirrored x.session.store x.session.root x.entered p.nested
  distinct : x.addresses.Nodup
  allocated : ∀ a ∈ x.addresses, a.index < x.session.store.size

namespace Agrees

variable {x : Evaluator} {p : Scopes}

/-- A session that was only just opened agrees with empty scopes. -/
theorem fresh (w : World) (capacities : Capacities) :
    Agrees (Evaluator.fresh w capacities) {} := by
  have hroot : (Evaluator.fresh w capacities).world.globals
      (Evaluator.fresh w capacities).session.root = {} := by
    change (w.newRoot {}).2.globals (w.newRoot {}).1 = {}
    rw [World.globals_newRoot, if_pos rfl]
  have hbindings : (Evaluator.fresh w capacities).bindings = [] := by
    rw [Evaluator.bindings, hroot]
    rfl
  have haddresses : (Evaluator.fresh w capacities).addresses = [] := by
    rw [Evaluator.addresses, hbindings]
    rfl
  refine ⟨?_, ?_, ?_, .nil, ?_, ?_⟩
  · change ((w.roots.alloc {}).2.get? (w.roots.alloc {}).1).isSome
    rw [Pool.get?_alloc, if_pos rfl]
    rfl
  · rw [hroot]
    exact Globals.indexed_empty
  · rw [hbindings]
    rfl
  · rw [haddresses]
    exact List.nodup_nil
  · intro a ha
    rw [haddresses] at ha
    cases ha

/-! ## One call -/

/-- What a scope stands for, if it has been made. -/
theorem has_eq (h : Agrees x p) (scope : Option Nat) :
    p.has scope = (x.env? scope).isSome := by
  have hiff := h.nested.has_iff p.globals scope
  rw [Bool.eq_iff_iff, Option.isSome_iff_exists]
  exact hiff

theorem has_of_none (h : Agrees x p) {scope : Option Nat} (he : x.env? scope = none) :
    p.has scope = false := by
  rw [h.has_eq, he]
  rfl

theorem has_of_some (h : Agrees x p) {scope : Option Nat} {e : Env}
    (he : x.env? scope = some e) : p.has scope = true := by
  rw [h.has_eq, he]
  rfl

theorem owns (h : Agrees x p) {scope : Option Nat} {e : Env} (he : x.env? scope = some e) :
    x.session.owns e = true :=
  Session.owns_iff.2 (h.nested.root_eq he)

/-- The search along a chain, as the search through the bindings that scopes show. -/
theorem find_eq (h : Agrees x p) {scope : Option Nat} {e : Env} (he : x.env? scope = some e)
    (name : String) :
    x.world.find e name = Globals.found name ((e.find? name).or (x.bindings.lookup name)) := by
  have hroot : e.root = x.session.root := h.nested.root_eq he
  have hindexed : (x.world.globals e.root).Indexed := by
    rw [hroot]
    exact h.indexed
  rw [World.find_eq_found hindexed, hroot]
  rfl

/-- Whatever a name in a scope is bound to is among the addresses that are kept separate. -/
theorem mem_addresses (h : Agrees x p) {scope : Option Nat} {e : Env}
    (he : x.env? scope = some e) {name : String} {a : Address}
    (ha : (e.find? name).or (x.bindings.lookup name) = some a) : a ∈ x.addresses := by
  rcases Option.or_eq_some_iff.1 ha with hnested | ⟨-, hglobal⟩
  · exact List.mem_append_left _ (h.nested.mem_ownAddresses he hnested)
  · exact List.mem_append_right _ (mem_of_lookup hglobal)

/-- A definition makes a global entry with a cell of its own. -/
theorem define (h : Agrees x p) (name : String) (v : Value) :
    (x.call (.define name v)).1 = (p.call (.define name v)).1 ∧
      Agrees (x.call (.define name v)).2 (p.call (.define name v)).2 := by
  refine ⟨rfl, ?_⟩
  let a : Address := ⟨x.session.store.size⟩
  let store : Store := ⟨x.session.store.cells.push v⟩
  have hgrown : ((x.call (.define name v)).2.world.globals x.session.root) =
      (x.world.globals x.session.root).push name a := by
    change (x.world.bind x.session.root name a).value.globals x.session.root = _
    rw [World.globals_bind _ _ _ _ _ h.live, if_pos rfl]
  have hbindings : (x.call (.define name v)).2.bindings = (name, a) :: x.bindings := by
    change ((x.call (.define name v)).2.world.globals x.session.root).bindings = _
    rw [hgrown, Globals.bindings_push]
    rfl
  have haddresses :
      ((x.call (.define name v)).2.addresses).Perm (a :: x.addresses) := by
    rw [Evaluator.addresses, hbindings]
    exact List.perm_middle
  have hheld : ∀ b ∈ x.addresses, store.held b = x.session.store.held b := fun b hb =>
    Store.held_push (h.allocated b hb) v
  have hsize : store.size = x.session.store.size + 1 := by simp [store, Store.size]
  refine ⟨?_, ?_, ?_, ?_, ?_, ?_⟩
  · change ((x.world.roots.modify x.session.root (·.push name a)).get? x.session.root).isSome
    rw [Pool.get?_modify, if_pos rfl, Option.isSome_map]
    exact h.live
  · change ((x.call (.define name v)).2.world.globals x.session.root).Indexed
    rw [hgrown]
    exact h.indexed.push name a
  · have hshown : shown store x.bindings = shown x.session.store x.bindings :=
      shown_congr fun b hb => hheld b (List.mem_append_right _ hb)
    have hself : store.held a = v := Store.held_push_self x.session.store v
    calc
      (name, v) :: p.globals = (name, store.held a) :: shown store x.bindings := by
        rw [h.globals, hshown, hself]
      _ = shown store (x.call (.define name v)).2.bindings := by
        rw [hbindings]
        rfl
  · exact h.nested.congr fun b hb => hheld b (List.mem_append_left _ hb)
  · -- The new address lies past every address there was.
    refine haddresses.nodup_iff.2 (List.nodup_cons.2 ⟨?_, h.distinct⟩)
    intro ha
    exact Nat.lt_irrefl _ (h.allocated a ha)
  · intro b hb
    change b.index < store.size
    rw [hsize]
    rcases List.mem_cons.1 (haddresses.mem_iff.1 hb) with rfl | hb
    · exact Nat.lt_succ_self _
    · exact Nat.lt_succ_of_lt (h.allocated b hb)

/-- Entering a frame for as many values as names. -/
theorem enter_of_length_eq (h : Agrees x p) {scope : Option Nat} {e : Env}
    (he : x.env? scope = some e) {names : List String} {values : List Value}
    (hl : names.length = values.length) :
    (x.call (.enter scope names values)).1 = (p.call (.enter scope names values)).1 ∧
      Agrees (x.call (.enter scope names values)).2 (p.call (.enter scope names values)).2 := by
  let addresses := (List.range' x.session.store.size values.length).map Address.mk
  let f : Frame := ⟨x.world.frameCount, names.zip addresses⟩
  let store : Store := ⟨x.session.store.cells ++ values.toArray⟩
  have hcall : x.call (.enter scope names values) =
      (.entered (f.names :: e.frames.map Frame.names),
        ⟨{ x.session with store }, { x.world with frameCount := x.world.frameCount + 1 },
          { e with frames := f :: e.frames } :: x.entered⟩) := by
    simp only [Evaluator.call, he, Session.value_enter (h.owns he) hl]
    rfl
  have hscopes : p.call (.enter scope names values) =
      (.entered (Scopes.names (⟨names.zip values, scope⟩ :: p.nested) (some p.nested.length)),
        ⟨p.globals, ⟨names.zip values, scope⟩ :: p.nested⟩) := by
    simp [Scopes.call, h.has_of_some he, hl]
  have hheld : ∀ b ∈ x.addresses, store.held b = x.session.store.held b := fun b hb =>
    Store.held_append (h.allocated b hb) values.toArray
  have hnested : Mirrored store x.session.root ({ e with frames := f :: e.frames } :: x.entered)
      (⟨names.zip values, scope⟩ :: p.nested) := by
    have hf : shown store f.bindings = names.zip values :=
      shown_zip_append x.session.store names values
    rw [← hf]
    exact .cons f (h.nested.congr fun b hb => hheld b (List.mem_append_left _ hb)) he
  have hparams : f.names = names := by
    apply List.map_fst_zip
    simp [addresses, hl]
  have hnames : Scopes.names (⟨names.zip values, scope⟩ :: p.nested) (some p.nested.length) =
      names :: e.frames.map Frame.names := by
    rw [Scopes.names, if_pos rfl, h.nested.names_eq he, List.map_fst_zip (Nat.le_of_eq hl)]
  have hown : f.addresses = addresses := by
    apply List.map_snd_zip
    simp [addresses, hl]
  have haddresses : (x.call (.enter scope names values)).2.addresses =
      addresses ++ x.addresses := by
    rw [hcall]
    change (f.addresses ++ x.entered.flatMap ownAddresses) ++ _ = _
    rw [hown, List.append_assoc]
    rfl
  -- The cells of the new frame lie past all that were allocated, each with an address of its own.
  have hfresh : ∀ a ∈ addresses,
      x.session.store.size ≤ a.index ∧ a.index < x.session.store.size + values.length := by
    intro a ha
    rcases List.mem_map.1 ha with ⟨i, hi, rfl⟩
    exact List.mem_range'_1.1 hi
  have hsize : store.size = x.session.store.size + values.length := by simp [store, Store.size]
  have hagrees : Agrees (x.call (.enter scope names values)).2
      (p.call (.enter scope names values)).2 := by
    have hdistinct : (addresses ++ x.addresses).Nodup := by
      refine List.nodup_append.2 ⟨?_, h.distinct, ?_⟩
      · exact List.Nodup.map (fun i j hij => congrArg Address.index hij) List.nodup_range'
      · rintro a ha b hb rfl
        exact absurd (h.allocated a hb) (Nat.not_lt.2 (hfresh a ha).1)
    have hallocated : ∀ a ∈ addresses ++ x.addresses, a.index < store.size := by
      intro a ha
      rw [hsize]
      rcases List.mem_append.1 ha with hnew | hold
      · exact (hfresh a hnew).2
      · exact Nat.lt_add_right _ (h.allocated a hold)
    rw [← haddresses] at hdistinct hallocated
    rw [hcall] at hdistinct hallocated ⊢
    rw [hscopes]
    refine ⟨h.live, h.indexed, ?_, hnested, hdistinct, hallocated⟩
    rw [h.globals]
    exact (shown_congr fun b hb => hheld b (List.mem_append_right _ hb)).symm
  refine ⟨?_, hagrees⟩
  rw [hcall, hscopes, hnames, hparams]

/-- Entering makes a scope whose entries have cells of their own. -/
theorem enter (h : Agrees x p) (scope : Option Nat) (names : List String)
    (values : List Value) :
    (x.call (.enter scope names values)).1 = (p.call (.enter scope names values)).1 ∧
      Agrees (x.call (.enter scope names values)).2 (p.call (.enter scope names values)).2 := by
  cases he : x.env? scope with
  | none =>
      have hhas : p.has scope = false := h.has_of_none he
      simpa [Evaluator.call, Scopes.call, he, hhas] using h
  | some e =>
      by_cases hl : names.length = values.length
      · exact h.enter_of_length_eq he hl
      · have hhas : p.has scope = true := h.has_of_some he
        simpa [Evaluator.call, Scopes.call, he, hhas, hl,
          Session.enter_of_length_ne (h.owns he) hl] using h

/-- A look-up answers the value of the entry and changes nothing. -/
theorem lookup (h : Agrees x p) (scope : Option Nat) (name : String) :
    (x.call (.lookup scope name)).1 = (p.call (.lookup scope name)).1 ∧
      Agrees (x.call (.lookup scope name)).2 (p.call (.lookup scope name)).2 := by
  cases he : x.env? scope with
  | none =>
      have hhas : p.has scope = false := h.has_of_none he
      simpa [Evaluator.call, Scopes.call, he, hhas] using h
  | some e =>
      have hhas : p.has scope = true := h.has_of_some he
      have hread : Scopes.read p.globals name p.nested scope =
          ((e.find? name).or (x.bindings.lookup name)).map x.session.store.held := by
        rw [h.globals]
        exact h.nested.read_eq x.bindings name he
      have hlookup : (x.session.lookup x.world e name).value =
          (Globals.found name ((e.find? name).or (x.bindings.lookup name))).bind
            x.session.store.read := by
        rw [Session.value_lookup (h.owns he), h.find_eq he]
      cases ha : (e.find? name).or (x.bindings.lookup name) with
      | none =>
          rw [ha] at hread hlookup
          simpa [Evaluator.call, Scopes.call, he, hhas, hread, hlookup, Except.bind] using h
      | some a =>
          -- Whatever a chain binds is allocated, so the read does not fail once the search has
          -- succeeded.
          have hcell := Store.read_eq_held (h.allocated a (h.mem_addresses he ha))
          rw [ha] at hread hlookup
          simpa [Evaluator.call, Scopes.call, he, hhas, hread, hlookup, hcell, Except.bind] using h

/-- An assignment overwrites one entry, since no other entry has its cell. -/
theorem assign (h : Agrees x p) (scope : Option Nat) (name : String) (v : Value) :
    (x.call (.assign scope name v)).1 = (p.call (.assign scope name v)).1 ∧
      Agrees (x.call (.assign scope name v)).2 (p.call (.assign scope name v)).2 := by
  cases he : x.env? scope with
  | none =>
      have hhas : p.has scope = false := h.has_of_none he
      simpa [Evaluator.call, Scopes.call, he, hhas] using h
  | some e =>
      have hhas : p.has scope = true := h.has_of_some he
      have hfind := h.find_eq he name
      cases ha : (e.find? name).or (x.bindings.lookup name) with
      | none =>
          have hwrite : Scopes.write p.globals name v p.nested scope = none := by
            rw [h.globals]
            exact h.nested.write_eq_none v he ha
          rw [ha] at hfind
          simpa [Evaluator.call, Scopes.call, he, hhas, hwrite,
            Session.value_assign_of_error (h.owns he) hfind] using h
      | some a =>
          have hlt := h.allocated a (h.mem_addresses he ha)
          -- The write goes to one cell on one side and to one entry on the other.
          rcases h.nested.write_eq_some hlt v h.distinct he ha with ⟨nested, hm, hwrite⟩
          rw [← h.globals] at hwrite
          rw [ha] at hfind
          have hcall : x.call (.assign scope name v) = (.assigned,
              { x with session :=
                { x.session with store := (x.session.store.write a v).value } }) := by
            simp [Evaluator.call, he, Session.value_assign_of_ok (h.owns he) hfind]
          have hscopes : p.call (.assign scope name v) =
              (.assigned, ⟨shown (x.session.store.write a v).value x.bindings, nested⟩) := by
            simp [Scopes.call, hhas, hwrite]
          rw [hcall, hscopes]
          refine ⟨rfl, h.live, h.indexed, rfl, hm, h.distinct, ?_⟩
          intro b hb
          rw [Store.size_write]
          exact h.allocated b hb

/-- One call answers the same on both sides, and the two go on to agree. -/
theorem call (h : Agrees x p) (c : Call) :
    (x.call c).1 = (p.call c).1 ∧ Agrees (x.call c).2 (p.call c).2 := by
  cases c with
  | define name v => exact h.define name v
  | enter scope names values => exact h.enter scope names values
  | lookup scope name => exact h.lookup scope name
  | assign scope name v => exact h.assign scope name v

/-! ## Runs -/

/-- What holds of one call holds of all of them, one after the other. -/
theorem run (h : Agrees x p) (calls : List Call) :
    (x.run calls).1 = (p.run calls).1 ∧ Agrees (x.run calls).2 (p.run calls).2 := by
  induction calls generalizing x p with
  | nil => exact ⟨rfl, h⟩
  | cons c rest ih =>
      rcases h.call c with ⟨houtcome, hnext⟩
      rcases ih hnext with ⟨houtcomes, hlast⟩
      refine ⟨?_, hlast⟩
      change (x.call c).1 :: ((x.call c).2.run rest).1 = (p.call c).1 :: ((p.call c).2.run rest).1
      rw [houtcome, houtcomes]

/-! ## Separate bindings -/

/-- Two bindings that hold the same address are one and the same. -/
theorem eq_of_holds (h : Agrees x p) {o o' : Evaluator.Occurrence} {a : Address}
    (ho : x.Holds o a) (ho' : x.Holds o' a) : o = o' := by
  rcases List.nodup_append.1 h.distinct with ⟨hnested, hglobal, hapart⟩
  rcases List.nodup_flatMap.1 hnested with ⟨hwithin, hbetween⟩
  -- The frame of an occurrence may be far out in its chain, but some call entered it as innermost.
  have mem_nested : ∀ {e : Env} {f : Frame} {i : Nat} {name : String}, e ∈ x.entered →
      f ∈ e.frames → f.bindings[i]? = some (name, a) →
        ∃ e' ∈ x.entered, ownAddresses e' = f.addresses ∧ f.addresses[i]? = some a ∧
          ∃ rest, e'.frames = f :: rest := by
    intro e f i name he hf hi
    rcases h.nested.mem_own_of_mem he hf with ⟨e', he', rest, hframes⟩
    refine ⟨e', he', ?_, ?_, rest, hframes⟩
    · rw [ownAddresses, hframes]
    · simp [Frame.addresses, hi]
  have mem_global : ∀ {i : Nat} {name : String},
      (x.world.globals x.session.root).history[i]? = some (name, a) →
        a ∈ x.bindings.map Prod.snd := by
    intro i name hi
    have hmem := Array.mem_of_getElem? hi
    exact List.mem_map.2 ⟨(name, a), by simpa [Evaluator.bindings, Globals.bindings] using hmem, rfl⟩
  have history_nodup :
      ((x.world.globals x.session.root).history.toList.map Prod.snd).Nodup := by
    have hreverse := List.nodup_reverse.2 hglobal
    simpa [Evaluator.bindings, Globals.bindings] using hreverse
  cases ho with
  | global hi =>
      cases ho' with
      | global hj =>
          rename_i i _ j _
          have hlt : i < (x.world.globals x.session.root).history.size :=
            (Array.getElem?_eq_some_iff.1 hi).1
          have hij : i = j := by
            refine (List.getElem?_inj (by simpa using hlt) history_nodup).1 ?_
            simp [hi, hj]
          rw [hij]
      | nested he hf hj =>
          rcases mem_nested he hf hj with ⟨e', he', hown, hat, -⟩
          have hmem : a ∈ x.entered.flatMap ownAddresses :=
            List.mem_flatMap.2 ⟨e', he', by rw [hown]; exact List.mem_of_getElem? hat⟩
          exact absurd rfl (hapart a hmem a (mem_global hi))
  | nested he hf hi =>
      rcases mem_nested he hf hi with ⟨e₁, he₁, hown₁, hat₁, rest₁, hframes₁⟩
      have hmem₁ : a ∈ ownAddresses e₁ := by rw [hown₁]; exact List.mem_of_getElem? hat₁
      cases ho' with
      | global hj =>
          have hmem : a ∈ x.entered.flatMap ownAddresses := List.mem_flatMap.2 ⟨e₁, he₁, hmem₁⟩
          exact absurd rfl (hapart a hmem a (mem_global hj))
      | nested he' hf' hj =>
          rename_i i _ e' f' j _
          rcases mem_nested he' hf' hj with ⟨e₂, he₂, hown₂, hat₂, rest₂, hframes₂⟩
          have hmem₂ : a ∈ ownAddresses e₂ := by rw [hown₂]; exact List.mem_of_getElem? hat₂
          -- Frames of different chains have no address in common.
          have hchain : e₁ = e₂ := by
            by_contra hne
            have hdisjoint : Std.Symm (Function.onFun List.Disjoint ownAddresses) :=
              ⟨fun _ _ h _ hb ha => h ha hb⟩
            exact hbetween.forall he₁ he₂ hne hmem₁ hmem₂
          subst hchain
          have hframe := (List.cons.inj (hframes₁.symm.trans hframes₂)).1
          subst hframe
          have hnodup := hwithin e₁ he₁
          rw [hown₁] at hnodup
          have hij : i = j :=
            (List.getElem?_inj (List.getElem?_eq_some_iff.1 hat₁).1 hnodup).1
              (hat₁.trans hat₂.symm)
          rw [hij]

end Agrees

/-- Whatever calls are made on a session that was only just opened, they come to what they come
to in scopes that hold values and have no addresses, and no two bindings ever hold one address. -/
theorem outcomes_eq_scopes (w : World) (capacities : Capacities) (calls : List Call) :
    ((Evaluator.fresh w capacities).run calls).1 = (({} : Scopes).run calls).1 ∧
      ∀ (o o' : Evaluator.Occurrence) (a : Address),
        ((Evaluator.fresh w capacities).run calls).2.Holds o a →
          ((Evaluator.fresh w capacities).run calls).2.Holds o' a → o = o' := by
  rcases (Agrees.fresh w capacities).run calls with ⟨houtcomes, hagrees⟩
  refine ⟨houtcomes, ?_⟩
  intro o o' a ho ho'
  exact hagrees.eq_of_holds ho ho'

end ScopedStore.Direct
