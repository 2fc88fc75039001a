import Mathlib.Logic.Function.Basic
import Std.Data.String.ToInt
import ScopedStore.Inspect

/-!
# Texts that show where they end

A way of writing things down is delimited if a text can always be told from what stands behind it:
when two texts with something behind them read alike, they are texts of the same thing, and the same
stands behind both. What is put together from delimited parts is delimited, so that a nested text can
be taken apart from its beginning. Numbers are not delimited by themselves, since more digits can
follow, but they are once they are closed by a character that is no digit.
-/

namespace ScopedStore.Text

variable {α β : Type} {p : α → String} {q : β → String}

/-- No text is the beginning of the text of another thing, and none is written for two things. -/
def Delimited (p : α → String) : Prop :=
  ∀ (a b : α) (r s : List Char), (p a).toList ++ r = (p b).toList ++ s → a = b ∧ r = s

/-- Lists that are closed by a character which does not occur in them. -/
theorem append_cons_inj {c : Char} {l m r s : List Char} (hl : c ∉ l) (hm : c ∉ m)
    (h : l ++ c :: r = m ++ c :: s) : l = m ∧ r = s := by
  induction l generalizing m with
  | nil =>
      cases m with
      | nil => exact ⟨rfl, List.tail_eq_of_cons_eq h⟩
      | cons d m =>
          have hd : c = d := List.head_eq_of_cons_eq h
          exact absurd (hd ▸ List.mem_cons_self) hm
  | cons b l ih =>
      cases m with
      | nil =>
          have hb : b = c := List.head_eq_of_cons_eq h
          exact absurd (hb ▸ List.mem_cons_self) hl
      | cons d m =>
          rcases List.cons.inj h with ⟨rfl, htail⟩
          rcases ih (fun hc => hl (List.mem_cons_of_mem b hc))
            (fun hc => hm (List.mem_cons_of_mem b hc)) htail with ⟨rfl, rfl⟩
          exact ⟨rfl, rfl⟩

namespace Delimited

/-- A delimited text determines what it is the text of. -/
theorem injective (h : Delimited p) : Function.Injective p := by
  intro a b hab
  exact (h a b [] [] (by rw [hab])).1

/-- A thing can be written by means of another that it determines. -/
theorem comp (h : Delimited p) {f : β → α} (hf : Function.Injective f) :
    Delimited fun b => p (f b) := by
  intro a b r s heq
  rcases h (f a) (f b) r s heq with ⟨hab, hrest⟩
  exact ⟨hf hab, hrest⟩

/-- A fixed text may stand in front of the text of a thing, and another one behind it. -/
theorem between (h : Delimited p) (pre post : String) :
    Delimited fun a => pre ++ p a ++ post := by
  intro a b r s heq
  have hinner : (p a).toList ++ (post.toList ++ r) = (p b).toList ++ (post.toList ++ s) := by
    simpa using heq
  rcases h a b _ _ hinner with ⟨hab, hrest⟩
  exact ⟨hab, List.append_cancel_left hrest⟩

/-- Two texts may be written one behind the other. -/
theorem pair (hp : Delimited p) (hq : Delimited q) :
    Delimited fun x : α × β => p x.1 ++ q x.2 := by
  intro x y r s heq
  have hfirst : (p x.1).toList ++ ((q x.2).toList ++ r) = (p y.1).toList ++ ((q y.2).toList ++ s) := by
    simpa using heq
  rcases hp x.1 y.1 _ _ hfirst with ⟨h₁, hsecond⟩
  rcases hq x.2 y.2 r s hsecond with ⟨h₂, hrest⟩
  exact ⟨Prod.ext h₁ h₂, hrest⟩

/-- A text is delimited once it is closed by a text whose first character does not occur in it. -/
theorem closed (hinj : Function.Injective p) (pre : String) {c : Char} {cs : List Char}
    {post : String} (hpost : post.toList = c :: cs) (hfree : ∀ a, c ∉ (p a).toList) :
    Delimited fun a => pre ++ p a ++ post := by
  intro a b r s heq
  have hclosed : (p a).toList ++ c :: (cs ++ r) = (p b).toList ++ c :: (cs ++ s) := by
    simpa [hpost] using heq
  rcases append_cons_inj (hfree a) (hfree b) hclosed with ⟨hab, hrest⟩
  exact ⟨hinj (String.toList_injective hab), List.append_cancel_left hrest⟩

end Delimited

/-! ## Lists -/

def further (p : α → String) (l : List α) : List Char :=
  l.flatMap fun a => ',' :: ' ' :: (p a).toList

theorem toList_intercalate_cons (p : α → String) (l : List α) :
    ∀ a : α, (", ".intercalate ((a :: l).map p)).toList = (p a).toList ++ further p l := by
  induction l with
  | nil =>
      intro a
      simp [further]
  | cons b l ih =>
      intro a
      have hrest := ih b
      simp only [List.map_cons] at hrest
      simp [String.intercalate_cons_cons, hrest, further]

theorem toList_inspectList_nil : (inspectList []).toList = ['[', ']'] := by
  simp [inspectList]

/-- The text of a list has its first item behind the bracket. -/
theorem toList_inspectList_cons (p : α → String) (a : α) (l : List α) :
    (inspectList ((a :: l).map p)).toList = '[' :: ((p a).toList ++ further p l ++ [']']) := by
  simp only [inspectList, String.toList_append, toList_intercalate_cons]
  simp

namespace Delimited

/-- After an item there is either a comma and the next item, or the bracket that closes the list. -/
theorem further_inj (hp : Delimited p) {r s : List Char} (l : List α) :
    ∀ m : List α, further p l ++ ']' :: r = further p m ++ ']' :: s → l = m ∧ r = s := by
  induction l with
  | nil =>
      intro m h
      cases m with
      | nil => exact ⟨rfl, List.tail_eq_of_cons_eq h⟩
      | cons b m => simp [further] at h
  | cons a l ih =>
      intro m h
      cases m with
      | nil => simp [further] at h
      | cons b m =>
          have hitem : (p a).toList ++ (further p l ++ ']' :: r) =
              (p b).toList ++ (further p m ++ ']' :: s) := by
            simpa [further] using h
          rcases hp a b _ _ hitem with ⟨rfl, hrest⟩
          rcases ih m hrest with ⟨rfl, rfl⟩
          exact ⟨rfl, rfl⟩

/-- A list is delimited if its items are, and if none of them begins like the end of the list. -/
theorem list (hp : Delimited p) (hopen : ∀ a, ∃ c cs, (p a).toList = c :: cs ∧ c ≠ ']') :
    Delimited fun l : List α => inspectList (l.map p) := by
  intro l m r s h
  cases l with
  | nil =>
      cases m with
      | nil => exact ⟨rfl, by simpa [toList_inspectList_nil] using h⟩
      | cons b m =>
          rcases hopen b with ⟨c, cs, hb, hc⟩
          simp only [List.map_nil, toList_inspectList_nil, toList_inspectList_cons, hb] at h
          exact absurd (List.head_eq_of_cons_eq (List.tail_eq_of_cons_eq h)).symm hc
  | cons a l =>
      cases m with
      | nil =>
          rcases hopen a with ⟨c, cs, ha, hc⟩
          simp only [List.map_nil, toList_inspectList_nil, toList_inspectList_cons, ha] at h
          exact absurd (List.head_eq_of_cons_eq (List.tail_eq_of_cons_eq h)) hc
      | cons b m =>
          have hitem : (p a).toList ++ (further p l ++ ']' :: r) =
              (p b).toList ++ (further p m ++ ']' :: s) := by
            simp only [toList_inspectList_cons] at h
            simpa using h
          rcases hp a b _ _ hitem with ⟨rfl, hrest⟩
          rcases hp.further_inj l m hrest with ⟨rfl, rfl⟩
          exact ⟨rfl, rfl⟩

end Delimited

/-! ## Numbers -/

/-- A number is written in digits only. -/
theorem not_mem_repr_nat {c : Char} (hdigit : c.isDigit = false) (n : Nat) :
    c ∉ n.repr.toList := by
  intro h
  rw [Nat.toList_repr] at h
  have htrue := Nat.isDigit_of_mem_toDigits (by decide) (by decide) h
  cases hdigit.symm.trans htrue

/-- An integer is written in digits with a sign in front, if any. -/
theorem not_mem_repr_int {c : Char} (hdigit : c.isDigit = false) (hsign : c ≠ '-') (i : Int) :
    c ∉ i.repr.toList := by
  rw [Int.repr_eq_if]
  split
  · exact not_mem_repr_nat hdigit _
  · rw [String.toList_append, List.mem_append, not_or]
    exact ⟨by simpa using hsign, not_mem_repr_nat hdigit _⟩

theorem repr_int_ne_nil (i : Int) : i.repr.toList ≠ [] := by
  rw [Int.repr_eq_if]
  split
  · rw [Nat.toList_repr]
    exact Nat.toDigits_ne_nil
  · simp

theorem toList_parenthesis : ")".toList = [')'] := by decide

/-- A number is delimited by a closing parenthesis. -/
theorem delimited_nat (pre : String) : Delimited fun n : Nat => pre ++ n.repr ++ ")" :=
  .closed (fun _ _ h => Nat.repr_inj.1 h) pre toList_parenthesis (not_mem_repr_nat rfl)

/-- A number is delimited once it is closed. -/
theorem delimited_int (pre : String) : Delimited fun i : Int => pre ++ i.repr ++ ")" :=
  .closed (fun _ _ h => Int.repr_inj.1 h) pre toList_parenthesis (not_mem_repr_int rfl (by decide))

end ScopedStore.Text
