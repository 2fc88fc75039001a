import ScopedStore.Proofs.Direct.Evaluator
import ScopedStore.Proofs.Direct.Shown
import ScopedStore.Proofs.Index

/-!
# Addresses cannot be observed

An evaluator over a session answers every sequence of calls as scopes that hold their values
directly do. The proof keeps two facts along a run. `Mirrored` says that each scope shows the
innermost frame of the chain of the same number. `Separate` says that the addresses of all
bindings, shadowed ones included, are pairwise distinct and allocated, so that overwriting one
cell changes exactly one entry.
-/

namespace ScopedStore.Direct

/-! ## Chains and the scopes that mirror them -/

def ownAddresses (e : Env) : List Address :=
  match e.frames with
  | [] => []
  | f :: _ => f.addresses

/-- Each scope shows the innermost frame of one chain, and stands in the scope of the rest. -/
inductive Mirrored (s : Store) (root : Ref Globals) : List Env → List Scope → Prop where
  | nil : Mirrored s root [] []
  | cons {entered : List Env} {scopes : List Scope} {start : Option Nat} {e : Env} (f : Frame) :
      Mirrored s root entered scopes → chainOf root entered start = some e →
        Mirrored s root ({ e with frames := f :: e.frames } :: entered)
          (⟨shown s f.bindings, start⟩ :: scopes)

variable {s t : Store} {root : Ref Globals} {entered : List Env} {scopes : List Scope}

theorem chainOf_cons (root : Ref Globals) (inner : Env) (entered : List Env)
    (start : Option Nat) :
    chainOf root (inner :: entered) start =
      if start = some entered.length then some inner else chainOf root entered start := by
  cases start with
  | none => rfl
  | some n => simp [chainOf, numbered]

theorem chainOf_nil {start : Option Nat} {e : Env} (h : chainOf root [] start = some e) :
    e = .ofRoot root := by
  cases start with
  | none => exact (Option.some.inj h).symm
  | some n => cases h

namespace Mirrored

theorem length_eq (h : Mirrored s root entered scopes) : entered.length = scopes.length := by
  induction h with
  | nil => rfl
  | cons f _ _ ih => simp [ih]

/-- Every chain that a scope stands for ends in the one root. -/
theorem root_eq (h : Mirrored s root entered scopes) :
    ∀ {start : Option Nat} {e : Env}, chainOf root entered start = some e → e.root = root := by
  induction h with
  | nil =>
      intro start e he
      rw [chainOf_nil he]
      rfl
  | cons f _ hstart ih =>
      intro start e he
      have hbelow := ih hstart
      rw [chainOf_cons] at he
      split at he
      · cases he
        exact hbelow
      · exact ih he

/-- A chain is known exactly if the scope of that number has been made. -/
theorem has_iff (h : Mirrored s root entered scopes) (globals : Entries) (start : Option Nat) :
    (Scopes.mk globals scopes).has start = true ↔ ∃ e, chainOf root entered start = some e := by
  cases start with
  | none => simp [Scopes.has, chainOf]
  | some n =>
      have hlen := h.length_eq
      -- Numbers below the length are exactly those that the search finds something for.
      have hnum : ∀ es : List Env, n < es.length ↔ ∃ e, numbered es n = some e := by
        intro es
        induction es with
        | nil => simp [numbered]
        | cons e older ih =>
            by_cases hn : n = older.length
            · simp [numbered, hn]
            · have hlt : n < older.length + 1 ↔ n < older.length := by omega
              simp [numbered, hn, hlt, ih]
      simpa [Scopes.has, chainOf, hlen] using hnum entered

/-- Every frame of a chain is the innermost frame of some entered chain. -/
theorem mem_own (h : Mirrored s root entered scopes) :
    ∀ {start : Option Nat} {e : Env}, chainOf root entered start = some e →
      ∀ {f : Frame}, f ∈ e.frames → ∃ e' ∈ entered, ∃ rest, e'.frames = f :: rest := by
  induction h with
  | nil =>
      intro start e he f hf
      rw [chainOf_nil he] at hf
      cases hf
  | cons g _ hstart ih =>
      intro start e he f hf
      rw [chainOf_cons] at he
      split at he
      · cases he
        rcases List.mem_cons.1 hf with rfl | hf
        · exact ⟨_, List.mem_cons_self, _, rfl⟩
        · rcases ih hstart hf with ⟨e', he', rest⟩
          exact ⟨e', List.mem_cons_of_mem _ he', rest⟩
      · rcases ih he hf with ⟨e', he', rest⟩
        exact ⟨e', List.mem_cons_of_mem _ he', rest⟩

/-- Every frame of an entered chain is the innermost frame of one that was entered. -/
theorem mem_own_of_mem (h : Mirrored s root entered scopes) {e : Env} (he : e ∈ entered)
    {f : Frame} (hf : f ∈ e.frames) : ∃ e' ∈ entered, ∃ rest, e'.frames = f :: rest := by
  induction h with
  | nil => cases he
  | cons g hm hstart ih =>
      rcases List.mem_cons.1 he with rfl | hold
      · rcases List.mem_cons.1 hf with rfl | hf
        · exact ⟨_, List.mem_cons_self, _, rfl⟩
        · rcases hm.mem_own hstart hf with ⟨e', he', rest⟩
          exact ⟨e', List.mem_cons_of_mem _ he', rest⟩
      · rcases ih hold with ⟨e', he', rest⟩
        exact ⟨e', List.mem_cons_of_mem _ he', rest⟩

/-- What the nested frames of a chain bind a name to is bound by some entered frame itself. -/
theorem mem_ownAddresses (h : Mirrored s root entered scopes) {start : Option Nat} {e : Env}
    (he : chainOf root entered start = some e) {name : String} {a : Address}
    (ha : e.find? name = some a) : a ∈ entered.flatMap ownAddresses := by
  rcases List.exists_of_findSome?_eq_some ha with ⟨f, hf, hfind⟩
  rcases h.mem_own he hf with ⟨e', he', rest, hframes⟩
  refine List.mem_flatMap.2 ⟨e', he', ?_⟩
  rw [ownAddresses, hframes]
  exact mem_of_lookup hfind

/-- Cells that no entered frame binds may change. -/
theorem congr (h : Mirrored s root entered scopes)
    (hsame : ∀ a ∈ entered.flatMap ownAddresses, t.held a = s.held a) :
    Mirrored t root entered scopes := by
  induction h with
  | nil => exact .nil
  | @cons entered scopes start e f _ hstart ih =>
      have hown : shown t f.bindings = shown s f.bindings := by
        apply shown_congr
        intro a ha
        exact hsame a (List.mem_append_left _ ha)
      have holder : Mirrored t root entered scopes := by
        apply ih
        intro a ha
        exact hsame a (List.mem_append_right _ ha)
      rw [← hown]
      exact .cons f holder hstart

/-- A scope lists the names of its chain, frame by frame. -/
theorem names_eq (h : Mirrored s root entered scopes) :
    ∀ {start : Option Nat} {e : Env}, chainOf root entered start = some e →
      Scopes.names scopes start = e.frames.map Frame.names := by
  induction h with
  | nil =>
      intro start e he
      rw [chainOf_nil he]
      rfl
  | @cons entered scopes start₀ e₀ f hm hstart ih =>
      intro start e he
      rw [chainOf_cons, hm.length_eq] at he
      unfold Scopes.names
      split at he
      · rename_i hnew
        cases he
        rw [if_pos hnew, ih hstart, map_fst_shown]
        rfl
      · rename_i hold
        rw [if_neg hold]
        exact ih he

/-! ## Reading and writing -/

/-- Reading from a scope outwards is searching the chain and showing the value of the cell. -/
theorem read_eq (h : Mirrored s root entered scopes) (bindings : List (String × Address))
    (name : String) :
    ∀ {start : Option Nat} {e : Env}, chainOf root entered start = some e →
      Scopes.read (shown s bindings) name scopes start =
        ((e.find? name).or (bindings.lookup name)).map s.held := by
  -- Induction on the scopes from the newest on: each is the one asked for, or is passed over.
  induction h with
  | nil =>
      intro start e he
      rw [chainOf_nil he]
      exact lookup_shown s name bindings
  | @cons entered scopes start₀ e₀ f hm hstart ih =>
      intro start e he
      rw [chainOf_cons, hm.length_eq] at he
      unfold Scopes.read
      split at he
      · rename_i hnew
        cases he
        rw [if_pos hnew, ih hstart, lookup_shown, Env.find?_cons, Frame.find?]
        cases f.bindings.lookup name <;> rfl
      · rename_i hold
        rw [if_neg hold]
        exact ih he

/-- A name that the chain does not bind has no entry to overwrite. -/
theorem write_eq_none (h : Mirrored s root entered scopes) {bindings : List (String × Address)}
    {name : String} (v : Value) :
    ∀ {start : Option Nat} {e : Env}, chainOf root entered start = some e →
      (e.find? name).or (bindings.lookup name) = none →
        Scopes.write (shown s bindings) name v scopes start = none := by
  induction h with
  | nil =>
      intro start e he hnone
      rw [chainOf_nil he] at hnone
      have hglobal : bindings.lookup name = none := by simpa using hnone
      simp [Scopes.write, overwrite_shown_of_none hglobal s v]
  | @cons entered scopes start₀ e₀ f hm hstart ih =>
      intro start e he hnone
      rw [chainOf_cons, hm.length_eq] at he
      unfold Scopes.write
      split at he
      · rename_i hnew
        cases he
        rw [Env.find?_cons, Option.or_assoc, Option.or_eq_none_iff] at hnone
        rw [if_pos hnew, overwrite_shown_of_none hnone.1 s v, ih hstart hnone.2]
        rfl
      · rename_i hold
        rw [if_neg hold, ih he hnone]
        rfl

/-- Overwriting the first entry of a name shows the write to the cell that the chain gives for
it: no binding elsewhere has that cell, so every other entry keeps its value. -/
theorem write_eq_some (h : Mirrored s root entered scopes) {bindings : List (String × Address)}
    {name : String} {a : Address} (hlt : a.index < s.size) (v : Value)
    (hdistinct : (entered.flatMap ownAddresses ++ bindings.map Prod.snd).Nodup) :
    ∀ {start : Option Nat} {e : Env}, chainOf root entered start = some e →
      (e.find? name).or (bindings.lookup name) = some a →
        ∃ scopes', Mirrored (s.write a v).value root entered scopes' ∧
          Scopes.write (shown s bindings) name v scopes start =
            some ⟨shown (s.write a v).value bindings, scopes'⟩ := by
  induction h with
  | nil =>
      intro start e he ha
      rw [chainOf_nil he] at ha
      have hglobal : bindings.lookup name = some a := by simpa using ha
      have hnodup : (bindings.map Prod.snd).Nodup := by simpa using hdistinct
      refine ⟨[], .nil, ?_⟩
      simp [Scopes.write, overwrite_shown_of_some hglobal hnodup hlt v]
  | @cons entered scopes start₀ e₀ f hm hstart ih =>
      intro start e he ha
      rw [List.flatMap_cons, List.append_assoc] at hdistinct
      rcases List.nodup_append.1 hdistinct with ⟨hown, hrest, hapart⟩
      rw [chainOf_cons, hm.length_eq] at he
      -- The older scopes answer whenever the new frame is passed over.
      have holder : ∀ {start : Option Nat} {e : Env}, chainOf root entered start = some e →
          (e.find? name).or (bindings.lookup name) = some a →
            ∃ scopes', Mirrored (s.write a v).value root
                ({ e₀ with frames := f :: e₀.frames } :: entered)
                (⟨shown s f.bindings, start₀⟩ :: scopes') ∧
              Scopes.write (shown s bindings) name v scopes start =
                some ⟨shown (s.write a v).value bindings, scopes'⟩ := by
        intro start e he ha
        rcases ih hrest he ha with ⟨scopes', hm', hwrite⟩
        have hmem : a ∈ entered.flatMap ownAddresses ++ bindings.map Prod.snd := by
          rcases Option.or_eq_some_iff.1 ha with hnested | ⟨-, hglobal⟩
          · exact List.mem_append_left _ (hm.mem_ownAddresses he hnested)
          · exact List.mem_append_right _ (mem_of_lookup hglobal)
        have hkept : shown (s.write a v).value f.bindings = shown s f.bindings := by
          apply shown_congr
          intro b hb
          exact Store.held_write_of_ne (hapart b hb a hmem) s v
        refine ⟨scopes', ?_, hwrite⟩
        rw [← hkept]
        exact .cons f hm' hstart
      unfold Scopes.write
      split at he
      · rename_i hnew
        cases he
        rw [Env.find?_cons, Option.or_assoc] at ha
        rw [if_pos hnew]
        rcases Option.or_eq_some_iff.1 ha with hfirst | ⟨hnone, hlater⟩
        · -- The new frame has the entry: its cell changes, and all other frames have other cells.
          have hmem : a ∈ ownAddresses { e₀ with frames := f :: e₀.frames } := mem_of_lookup hfirst
          have hother : ∀ b ∈ entered.flatMap ownAddresses ++ bindings.map Prod.snd,
              (s.write a v).value.held b = s.held b := by
            intro b hb
            exact Store.held_write_of_ne (hapart a hmem b hb).symm s v
          have hglobals : shown (s.write a v).value bindings = shown s bindings :=
            shown_congr fun b hb => hother b (List.mem_append_right _ hb)
          have hm' : Mirrored (s.write a v).value root entered scopes :=
            hm.congr fun b hb => hother b (List.mem_append_left _ hb)
          refine ⟨⟨shown (s.write a v).value f.bindings, start₀⟩ :: scopes,
            .cons f hm' hstart, ?_⟩
          rw [overwrite_shown_of_some hfirst hown hlt v, hglobals]
        · rcases holder hstart hlater with ⟨scopes', hm', hwrite⟩
          refine ⟨_, hm', ?_⟩
          rw [overwrite_shown_of_none hnone s v, hwrite]
          rfl
      · rename_i hold
        rw [if_neg hold]
        rcases holder he ha with ⟨scopes', hm', hwrite⟩
        refine ⟨_, hm', ?_⟩
        rw [hwrite]
        rfl

end Mirrored

end ScopedStore.Direct
