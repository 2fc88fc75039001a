import ScopedStore.Proofs.Texts.Delimited

/-!
# Quoted texts can be read back

A character between quotes is written as it is, as a backslash with a letter, or by its number. The
three forms cannot be confused, and none is the beginning of another, so that a quoted string ends at
its first quote without a backslash and determines the string.
-/

namespace ScopedStore.Text

/-- The character that a letter stands for behind a backslash. -/
def meaning : Char → Char
  | 'n' => '\n'
  | 'r' => '\r'
  | 't' => '\t'
  | '0' => '\x00'
  | c => c

/-- The written forms of characters. -/
inductive Written : Char → List Char → Prop where
  | letter {k : Char} : k ≠ 'u' → Written (meaning k) ['\\', k]
  | number (c : Char) : Written c (hexEscape c)
  | plain {c : Char} : c ≠ '\\' → c ≠ '"' → Written c [c]

/-- Every character is written in one of the three forms. -/
theorem written_escape (c : Char) : Written c (escape c) := by
  unfold escape
  split
  · rename_i hc
    subst hc
    exact @Written.letter '"' (by decide)
  split
  · rename_i hc
    subst hc
    exact @Written.letter '\\' (by decide)
  split
  · rename_i hc
    subst hc
    exact @Written.letter 'n' (by decide)
  split
  · rename_i hc
    subst hc
    exact @Written.letter 'r' (by decide)
  split
  · rename_i hc
    subst hc
    exact @Written.letter 't' (by decide)
  split
  · rename_i hc
    subst hc
    exact @Written.letter '0' (by decide)
  split
  · exact .number c
  · rename_i hquote hback _ _ _ _ _
    exact .plain hback hquote

/-! ## Hexadecimal numbers -/

theorem digitChar_inj : ∀ d < 16, ∀ e < 16, Nat.digitChar d = Nat.digitChar e → d = e := by
  decide

/-- A number is determined by its digits. -/
theorem toDigits_inj (n : Nat) : ∀ m : Nat, Nat.toDigits 16 n = Nat.toDigits 16 m → n = m := by
  induction n using Nat.strongRecOn with
  | ind n ih =>
      intro m h
      by_cases hn : n < 16 <;> by_cases hm : m < 16
      · simp only [Nat.toDigits_of_lt_base hn, Nat.toDigits_of_lt_base hm] at h
        exact digitChar_inj n hn m hm (List.head_eq_of_cons_eq h)
      · simp [Nat.toDigits_of_lt_base hn,
          Nat.toDigits_of_base_le (by decide : 1 < 16) (Nat.le_of_not_lt hm),
          List.singleton_eq_append_iff, Nat.toDigits_ne_nil] at h
      · simp [Nat.toDigits_of_lt_base hm,
          Nat.toDigits_of_base_le (by decide : 1 < 16) (Nat.le_of_not_lt hn),
          List.append_eq_singleton_iff, Nat.toDigits_ne_nil] at h
      · -- The last digits agree, and so do the numbers without them.
        simp only [Nat.toDigits_of_base_le (by decide : 1 < 16) (Nat.le_of_not_lt hn),
          Nat.toDigits_of_base_le (by decide : 1 < 16) (Nat.le_of_not_lt hm)] at h
        rcases List.append_inj' h rfl with ⟨hinit, hlast⟩
        have hquot : n / 16 = m / 16 := ih (n / 16) (by omega) (m / 16) hinit
        have hmod : n % 16 = m % 16 :=
          digitChar_inj _ (Nat.mod_lt n (by decide)) _ (Nat.mod_lt m (by decide))
            (List.head_eq_of_cons_eq hlast)
        omega

theorem mem_toDigits {c : Char} (n : Nat) (h : c ∈ Nat.toDigits 16 n) :
    ∃ d < 16, c = Nat.digitChar d := by
  induction n using Nat.strongRecOn with
  | ind n ih =>
      by_cases hn : n < 16
      · simp only [Nat.toDigits_of_lt_base hn, List.mem_singleton] at h
        exact ⟨n, hn, h⟩
      · simp only [Nat.toDigits_of_base_le (by decide : 1 < 16) (Nat.le_of_not_lt hn),
          List.mem_append, List.mem_singleton] at h
        rcases h with hinit | hlast
        · exact ih (n / 16) (by omega) hinit
        · exact ⟨n % 16, Nat.mod_lt n (by decide), hlast⟩

/-- The brace that ends a number is not one of its digits. -/
theorem brace_not_mem_toDigits (n : Nat) : '\x7d' ∉ Nat.toDigits 16 n := by
  intro h
  rcases mem_toDigits n h with ⟨d, hd, hbrace⟩
  revert d
  decide

/-! ## Characters -/

/-- A written character can be told from what stands behind it. -/
theorem Written.inj {c d : Char} {l m r s : List Char} (hc : Written c l) (hd : Written d m)
    (h : l ++ r = m ++ s) : c = d ∧ r = s := by
  cases hc with
  | @letter k hk =>
      cases hd with
      | @letter k' _ =>
          rcases List.cons.inj (List.tail_eq_of_cons_eq h) with ⟨rfl, hrest⟩
          exact ⟨rfl, hrest⟩
      | number =>
          exact absurd (List.head_eq_of_cons_eq (List.tail_eq_of_cons_eq h)) hk
      | plain hback =>
          exact absurd (List.head_eq_of_cons_eq h).symm hback
  | number =>
      cases hd with
      | @letter k' hk =>
          exact absurd (List.head_eq_of_cons_eq (List.tail_eq_of_cons_eq h)).symm hk
      | number =>
          have hdigits : Nat.toDigits 16 c.toNat ++ '\x7d' :: r =
              Nat.toDigits 16 d.toNat ++ '\x7d' :: s := by
            simpa [hexEscape] using h
          rcases append_cons_inj (brace_not_mem_toDigits _) (brace_not_mem_toDigits _) hdigits with
            ⟨hnumber, hrest⟩
          exact ⟨Char.toNat_inj.1 (toDigits_inj _ _ hnumber), hrest⟩
      | plain hback =>
          exact absurd (List.head_eq_of_cons_eq h).symm hback
  | plain hback =>
      cases hd with
      | letter => exact absurd (List.head_eq_of_cons_eq h) hback
      | number => exact absurd (List.head_eq_of_cons_eq h) hback
      | plain =>
          rcases List.cons.inj h with ⟨rfl, hrest⟩
          exact ⟨rfl, hrest⟩

/-- No written character begins with a quote, since a quote itself has a backslash in front. -/
theorem Written.ne_quote {c : Char} {l r s : List Char} (h : Written c l) : l ++ r ≠ '"' :: s := by
  cases h with
  | letter => simp
  | number => simp [hexEscape]
  | plain _ hquote => simpa using fun hc _ => absurd hc hquote

/-! ## Strings -/

/-- What stands between two quotes ends where the second quote is. -/
theorem escapeAll_inj {r s : List Char} (cs : List Char) :
    ∀ ds : List Char, escapeAll cs ++ '"' :: r = escapeAll ds ++ '"' :: s → cs = ds ∧ r = s := by
  induction cs with
  | nil =>
      intro ds h
      cases ds with
      | nil => exact ⟨rfl, List.tail_eq_of_cons_eq h⟩
      | cons d ds =>
          simp only [escapeAll_cons, List.append_assoc] at h
          exact absurd h.symm (written_escape d).ne_quote
  | cons c cs ih =>
      intro ds h
      cases ds with
      | nil =>
          simp only [escapeAll_cons, List.append_assoc] at h
          exact absurd h (written_escape c).ne_quote
      | cons d ds =>
          simp only [escapeAll_cons, List.append_assoc] at h
          rcases (written_escape c).inj (written_escape d) h with ⟨rfl, hrest⟩
          rcases ih ds hrest with ⟨rfl, rfl⟩
          exact ⟨rfl, rfl⟩

/-- A quoted string shows where it ends, and determines the string. -/
theorem delimited_quoted : Delimited quoted := by
  intro a b r s h
  have hinner : escapeAll a.toList ++ '"' :: r = escapeAll b.toList ++ '"' :: s := by
    simpa using h
  rcases escapeAll_inj _ _ hinner with ⟨hchars, hrest⟩
  exact ⟨String.toList_injective hchars, hrest⟩

/-- A string that holds what looks like the end of another, and one that holds the escape itself. -/
example : quoted "\", \n" = "\"\\\", \\n\"" ∧ quoted "\\n" = "\"\\\\n\"" := by decide

end ScopedStore.Text
