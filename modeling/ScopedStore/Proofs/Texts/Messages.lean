import ScopedStore.Proofs.Texts.Delimited

/-!
# The message of a fault determines the fault

A message begins with words that stand for its cause, and what was asked for comes after them as it
is. The words for one cause are never the beginning of those for another, so that nothing a caller
chooses can be taken for a cause: a name that spells another message is still told as a name. What
comes after the words is one payload, or two counts with a word between them that has no digit.
-/

namespace ScopedStore

open Text

namespace Fault

/-- What goes wrong, apart from what was asked for. -/
inductive Cause where
  | illegalAddress
  | unbound
  | foreign
  | arity

def cause : Fault → Cause
  | illegalAddress _ => .illegalAddress
  | unbound _ => .unbound
  | foreign => .foreign
  | arity _ _ => .arity

def Cause.words : Cause → String
  | illegalAddress => "illegal address: "
  | unbound => "var not found: "
  | foreign => "environment belongs to a different session"
  | arity => "extension frame needs one address per name: got "

def countsText (counts : Nat × Nat) : String :=
  counts.1.repr ++ " names and " ++ (counts.2.repr ++ " addresses")

def detail : Fault → String
  | illegalAddress raw => raw.toInt.repr
  | unbound name => name
  | foreign => ""
  | arity names addresses => countsText (names, addresses)

/-- A message is the words for its cause and then what was asked for. -/
theorem message_eq_words_append (f : Fault) : f.message = f.cause.words ++ f.detail := by
  cases f with
  | illegalAddress raw => rfl
  | unbound name => rfl
  | foreign => exact String.append_empty.symm
  | arity names addresses =>
      -- The message has its parts grouped from the left, and `detail` begins in the middle of them.
      delta message detail cause Cause.words countsText
      simp only [String.append_assoc]
      rfl

/-! ## Causes -/

theorem Cause.delimited_words : Delimited Cause.words := by
  intro c d r s h
  rcases eq_or_ne c d with rfl | hne
  · exact ⟨rfl, List.append_cancel_left h⟩
  · -- Words for different causes differ in one of their first two characters.
    cases c <;> cases d <;> simp_all [words]

/-- The cause can be told from the beginning of a message, whatever stands behind the message. -/
theorem cause_and_detail_of_message {e f : Fault} {r s : List Char}
    (h : e.message.toList ++ r = f.message.toList ++ s) :
    e.cause = f.cause ∧ e.detail.toList ++ r = f.detail.toList ++ s := by
  have hwords : e.cause.words.toList ++ (e.detail.toList ++ r) =
      f.cause.words.toList ++ (f.detail.toList ++ s) := by
    simpa only [message_eq_words_append, String.toList_append, List.append_assoc] using h
  exact Cause.delimited_words e.cause f.cause _ _ hwords

/-! ## Details -/

/-- A count ends at the blank in front of the next word, which is no digit. -/
theorem delimited_count (post : String) (hblank : post.toList.head? = some ' ') :
    Delimited fun n : Nat => n.repr ++ post := by
  rcases List.head?_eq_some_iff.1 hblank with ⟨cs, hpost⟩
  have hclosed := Delimited.closed (p := Nat.repr) (fun _ _ h => Nat.repr_inj.1 h) "" hpost
    (not_mem_repr_nat rfl)
  simpa using hclosed

/-- Two counts with a word between them can be told apart, and show where they end. -/
theorem delimited_countsText : Delimited countsText := by
  intro a b r s h
  have hnames := delimited_count " names and " (by decide)
  have haddresses := delimited_count " addresses" (by decide)
  exact hnames.pair haddresses a b r s h

/-- Faults of one cause are told apart by what comes after the words for it. -/
theorem eq_of_detail {e f : Fault} (hcause : e.cause = f.cause) (hdetail : e.detail = f.detail) :
    e = f := by
  cases e with
  | illegalAddress raw =>
      cases f with
      | illegalAddress raw' =>
          exact congrArg illegalAddress (Int64.toInt_inj.1 (Int.repr_inj.1 hdetail))
      | _ => cases hcause
  | unbound name =>
      cases f with
      | unbound name' => exact congrArg unbound hdetail
      | _ => cases hcause
  | foreign =>
      cases f with
      | foreign => rfl
      | _ => cases hcause
  | arity names addresses =>
      cases f with
      | arity names' addresses' =>
          rcases Prod.mk.inj (delimited_countsText.injective hdetail) with ⟨rfl, rfl⟩
          rfl
      | _ => cases hcause

/-- Two faults have one message only if they are the same fault, with the same address, name or
counts; a name may be any string, also one that spells a message. -/
theorem message_determines_fault (e f : Fault) : e.message = f.message ↔ e = f := by
  constructor
  · intro h
    have hbehind : e.message.toList ++ [] = f.message.toList ++ [] := by rw [h]
    rcases cause_and_detail_of_message hbehind with ⟨hcause, hdetail⟩
    rw [List.append_nil, List.append_nil] at hdetail
    exact eq_of_detail hcause (String.toList_injective hdetail)
  · rintro rfl
    rfl

/-- A name that spells a message stands after the words for a name. -/
example : (unbound "illegal address: 3").message = "var not found: illegal address: 3" := by decide

end Fault

end ScopedStore
