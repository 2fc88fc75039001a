import ScopedStore.Proofs.Handles.Tracked

/-!
# One cell for each creation

Handles that descend from one creation are the same to every observer, and handles of different
creations have nothing in common: they are told apart even while they contain the same, and nothing
that is done through the ones is seen through the others. What is read through a handle is what the
last write through any handle of its creation has left, whether that handle is still there or not.
-/

namespace ScopedStore

namespace Handles

variable {α : Type} {calls : List (Call α)} {birth : Nat → Nat} {s : Handles α} {o p : Nat}
variable {x y : String}

namespace Tracks

/-- A handle with a creation is there, and its slot belongs to the creation. -/
theorem exists_held (h : Tracks calls birth s) (hx : originOf calls x = some o) :
    ∃ r, s.held[x]? = some r ∧ birth r.slot = o := by
  rw [h.origin x] at hx
  exact Option.map_eq_some_iff.1 hx

/-- A handle is read, and what is read is what the calls tell of its creation. -/
theorem reply_read (h : Tracks calls birth s) (hx : originOf calls x = some o) :
    ∃ a, contentsOf calls o = some a ∧ s.reply (.read x) = .value a := by
  rcases h.exists_held hx with ⟨r, hr, rfl⟩
  have hlt := h.held x r hr
  have hcell : s.slots.contents[r.slot]? = some s.slots.contents[r.slot] :=
    Array.getElem?_eq_getElem hlt
  refine ⟨_, (h.contents r.slot hlt).trans hcell, ?_⟩
  simp [reply, through, hr, Pool.get?, hcell]

/-- There is nothing to read through a handle that descends from no creation. -/
theorem reply_read_of_missing (h : Tracks calls birth s) (hx : originOf calls x = none) :
    s.reply (.read x) = .missing x := by
  have hnone : s.held[x]? = none := by simpa [h.origin x] using hx
  simp [reply, through, hnone]

/-- Handles are the same if they have one slot, and so if they have one creation. -/
theorem reply_same (h : Tracks calls birth s) (hx : originOf calls x = some o)
    (hy : originOf calls y = some p) : s.reply (.same x y) = .flag (decide (o = p)) := by
  rcases h.exists_held hx with ⟨r, hr, rfl⟩
  rcases h.exists_held hy with ⟨t, ht, rfl⟩
  have hiff : r = t ↔ birth r.slot = birth t.slot := by
    refine ⟨fun hrt => by rw [hrt], fun hbirth => ?_⟩
    exact Ref.ext (h.distinct _ (h.held x r hr) _ (h.held y t ht) hbirth)
  simp [reply, through, hr, ht, hiff]

end Tracks

/-- What the calls tell of a creation is read through every handle of it. -/
theorem read_of_contentsOf {a : α} (hx : originOf calls x = some o)
    (hcontents : contentsOf calls o = some a) : (after calls).reply (.read x) = .value a := by
  rcases exists_tracks calls with ⟨birth, h⟩
  rcases h.reply_read hx with ⟨b, hb, hreply⟩
  cases hcontents.symm.trans hb
  exact hreply

def Call.handle? : Call α → Option String
  | .share x _ => some x
  | .write x _ => some x
  | .read x => some x
  | .drop x => some x
  | _ => none

/-- What handles have in common after some calls, the newest of which are listed first. -/
structure SharedByCreation (calls : List (Call α)) : Prop where
  /-- A handle can be read, and a name without a handle cannot. -/
  live : ∀ x, (originOf calls x = none ∧ (after calls).reply (.read x) = .missing x) ∨
    ∃ o a, originOf calls x = some o ∧ (after calls).reply (.read x) = .value a
  /-- A handle descends from a call that made one. -/
  created : ∀ x o, originOf calls x = some o → ∃ (later : List (Call α)) (into : String) (a : α)
    (earlier : List (Call α)), calls = later ++ .create into a :: earlier ∧ earlier.length = o
  /-- Two handles are the same exactly when they descend from one creation. -/
  same : ∀ x y o p, originOf calls x = some o → originOf calls y = some p →
    (after calls).reply (.same x y) = .flag (decide (o = p))
  /-- Without a write a handle has the first contents of its creation. -/
  first : ∀ (later : List (Call α)) (into : String) (a : α) (earlier : List (Call α)) (x : String),
    calls = later ++ .create into a :: earlier →
      Spared earlier.length later (.create into a :: earlier) →
        originOf calls x = some earlier.length → (after calls).reply (.read x) = .value a
  /-- Otherwise it has what the last write through a handle of the creation made of the contents. -/
  last : ∀ (later : List (Call α)) (y : String) (f : α → α) (earlier : List (Call α)) (o : Nat)
    (x : String), calls = later ++ .write y f :: earlier → originOf earlier y = some o →
      Spared o later (.write y f :: earlier) → originOf calls x = some o →
        ∃ a, (after earlier).reply (.read y) = .value a ∧
          (after calls).reply (.read x) = .value (f a)
  /-- Nothing else changes what is read through the handles of a creation. -/
  apart : ∀ (later earlier : List (Call α)) (o : Nat) (x y : String), calls = later ++ earlier →
    Spared o later earlier → originOf earlier x = some o → originOf calls y = some o →
      (after calls).reply (.read y) = (after earlier).reply (.read x)
  /-- In particular a call through a handle of another creation does not. -/
  foreign : ∀ (call : Call α) (x y : String) (o p : Nat), call.handle? = some y →
    originOf calls y = some p → p ≠ o → originOf calls x = some o →
      originOf (call :: calls) x = some o →
        (after (call :: calls)).reply (.read x) = (after calls).reply (.read x)

/-- Handles of one creation read the same, as long as nobody writes through any of them in between.
-/
theorem read_of_spared {later earlier : List (Call α)} (hspared : Spared o later earlier)
    (hx : originOf earlier x = some o) (hy : originOf (later ++ earlier) y = some o) :
    (after (later ++ earlier)).reply (.read y) = (after earlier).reply (.read x) := by
  rcases exists_tracks earlier with ⟨birth, h⟩
  rcases h.reply_read hx with ⟨a, ha, hread⟩
  rw [hread]
  exact read_of_contentsOf hy ((contentsOf_of_spared (origin_lt hx) hspared).trans ha)

theorem sharedByCreation (calls : List (Call α)) : SharedByCreation calls := by
  rcases exists_tracks calls with ⟨birth, h⟩
  refine ⟨?_, fun x o => exists_create calls x, ?_, ?_, ?_, ?_, ?_⟩
  · intro x
    cases hx : originOf calls x with
    | none => exact .inl ⟨rfl, h.reply_read_of_missing hx⟩
    | some o =>
        rcases h.reply_read hx with ⟨a, -, hread⟩
        exact .inr ⟨o, a, rfl, hread⟩
  · intro x y o p hx hy
    exact h.reply_same hx hy
  · rintro later into a earlier x rfl hspared hx
    have hfirst : contentsOf (.create into a :: earlier) earlier.length = some a := if_pos rfl
    exact read_of_contentsOf hx
      ((contentsOf_of_spared (Nat.lt_succ_self _) hspared).trans hfirst)
  · rintro later y f earlier o x rfl hy hspared hx
    -- What was there to be changed is what the handle itself read before the write.
    rcases exists_tracks earlier with ⟨_, hearlier⟩
    rcases hearlier.reply_read hy with ⟨a, ha, hread⟩
    have hwritten : contentsOf (.write y f :: earlier) o = some (f a) := by
      simp [contentsOf, hy, ha]
    exact ⟨a, hread, read_of_contentsOf hx
      ((contentsOf_of_spared (Nat.lt_succ_of_lt (origin_lt hy)) hspared).trans hwritten)⟩
  · rintro later earlier o x y rfl hspared hx hy
    exact read_of_spared hspared hx hy
  · intro call x y o p hhandle hy hne hx hafter
    have hspared : Spared o [call] calls := by
      intro newer z f older hcall
      rcases List.append_eq_cons_iff.1 hcall.symm with ⟨-, hwrite⟩ | ⟨rest, -, hrest⟩
      · cases hwrite
        cases hhandle
        simpa [hy] using hne
      · simp at hrest
    exact read_of_spared hspared hx hafter

end Handles

end ScopedStore
