import ScopedStore.Handles

/-!
# Creations of handles

What the calls on handles tell by themselves, without a look at the slots. A handle descends from the
call that made the first of the handles it was shared from, and that call is its creation. The calls
that write through handles of one creation, one after the other, say what the handles of the
creation contain. Calls are listed from the newest to the oldest, and a creation is known by the
number of calls before it.
-/

namespace ScopedStore.Handles

variable {α : Type}

/-- The creation that a handle descends from, if there is a handle of this name. -/
def originOf : List (Call α) → String → Option Nat
  | [], _ => none
  | .create into _ :: earlier, x => if x = into then some earlier.length else originOf earlier x
  | .share y into :: earlier, x =>
    if x = into then (originOf earlier y).or (originOf earlier x) else originOf earlier x
  | .drop y :: earlier, x => if x = y then none else originOf earlier x
  | _ :: earlier, x => originOf earlier x

/-- What a creation contained first, changed by every write through a handle of the creation. -/
def contentsOf : List (Call α) → Nat → Option α
  | [], _ => none
  | .create _ a :: earlier, o => if o = earlier.length then some a else contentsOf earlier o
  | .write x f :: earlier, o =>
    if originOf earlier x = some o then (contentsOf earlier o).map f else contentsOf earlier o
  | _ :: earlier, o => contentsOf earlier o

def Spared (o : Nat) (later earlier : List (Call α)) : Prop :=
  ∀ (after : List (Call α)) (x : String) (f : α → α) (before : List (Call α)),
    later = after ++ .write x f :: before → originOf (before ++ earlier) x ≠ some o

variable {calls later earlier : List (Call α)} {o : Nat} {x : String}

theorem Spared.tail {call : Call α} (h : Spared o (call :: later) earlier) :
    Spared o later earlier := by
  intro after x f before hlater
  exact h (call :: after) x f before (by rw [hlater]; rfl)

/-- A handle descends from a call that made a handle. -/
theorem exists_create (calls : List (Call α)) :
    ∀ x : String, originOf calls x = some o → ∃ (later : List (Call α)) (into : String) (a : α)
      (earlier : List (Call α)), calls = later ++ .create into a :: earlier ∧
        earlier.length = o := by
  induction calls with
  | nil =>
      intro x h
      cases h
  | cons call calls ih =>
      -- A handle that the newest call did not make has been made before, under its own name or
      -- under that of the handle it shares.
      have hbefore : ∀ y : String, originOf calls y = some o → ∃ (later : List (Call α))
          (into : String) (a : α) (earlier : List (Call α)),
          call :: calls = later ++ .create into a :: earlier ∧ earlier.length = o := by
        intro y hy
        rcases ih y hy with ⟨later, into, a, earlier, rfl, hlength⟩
        exact ⟨call :: later, into, a, earlier, rfl, hlength⟩
      intro x h
      cases call with
      | create into a =>
          simp only [originOf] at h
          split at h
          · exact ⟨[], into, a, calls, rfl, Option.some.inj h⟩
          · exact hbefore x h
      | share y into =>
          simp only [originOf] at h
          split at h
          · rcases Option.or_eq_some_iff.1 h with hy | ⟨-, hx⟩
            · exact hbefore y hy
            · exact hbefore x hx
          · exact hbefore x h
      | drop y =>
          simp only [originOf] at h
          split at h
          · cases h
          · exact hbefore x h
      | _ => exact hbefore x h

/-- A handle descends from a call that has been made. -/
theorem origin_lt (h : originOf calls x = some o) : o < calls.length := by
  rcases exists_create calls x h with ⟨later, into, a, earlier, rfl, rfl⟩
  simp
  omega

/-- What handles of a creation contain stays as it is until one of them is written through. -/
theorem contentsOf_of_spared (hlt : o < earlier.length) :
    Spared o later earlier → contentsOf (later ++ earlier) o = contentsOf earlier o := by
  induction later with
  | nil =>
      intro _
      rfl
  | cons call later ih =>
      intro h
      have hrest := ih h.tail
      cases call with
      | create into a =>
          -- A new creation has a number that no older one can have.
          have hne : o ≠ (later ++ earlier).length := by
            simp
            omega
          exact (if_neg hne).trans hrest
      | write x f => exact (if_neg (h [] x f later rfl)).trans hrest
      | _ => exact hrest

end ScopedStore.Handles
