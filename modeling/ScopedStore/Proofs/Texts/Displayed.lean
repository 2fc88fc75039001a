import ScopedStore.Proofs.Texts.Delimited

/-!
# What the text shown of a value leaves open

The text that a user is shown has no mark for the kind of a value, and strings stand in it with
nothing escaped. Still its first character tells the kind of every value that is no symbol, and what
follows tells which value of that kind it is: the digits of a number determine it, and a string is
all that stands between the first character and the last, whatever quotes it holds. Symbols are
shown bare and can read like anything else, so that they alone make texts ambiguous.
-/

namespace ScopedStore

open Text

namespace Value

variable {v w : Value}

theorem typeName_eq_symbol_iff : v.typeName = "symbol" ↔ ∃ s, v = symbol s := by
  cases v <;> simp [typeName]

/-! ## Values of different kinds -/

/-- The kind of the values, other than symbols, whose texts begin with a character. -/
def kindOf (c : Char) : String :=
  if c = '"' then "str"
  else if c = '#' then "bool"
  else if c = 'v' then "void"
  else "int"

/-- A number has no character in it that another kind of value begins with. -/
theorem kindOf_of_mem_repr {c : Char} {i : Int} (h : c ∈ i.repr.toList) : kindOf c = "int" := by
  have hne : ∀ d : Char, d.isDigit = false → d ≠ '-' → c ≠ d :=
    fun d hdigit hsign hcd => not_mem_repr_int hdigit hsign i (hcd ▸ h)
  simp [kindOf, hne '"' rfl (by decide), hne '#' rfl (by decide), hne 'v' rfl (by decide)]

/-- The first character of a text tells the kind, unless a symbol is shown. -/
theorem display_open (h : v.typeName ≠ "symbol") :
    ∃ c cs, v.display.toList = c :: cs ∧ kindOf c = v.typeName := by
  cases v with
  | int n =>
      rcases List.exists_cons_of_ne_nil (repr_int_ne_nil n.toInt) with ⟨c, cs, htext⟩
      have hmem : c ∈ n.toInt.repr.toList := htext ▸ List.mem_cons_self
      exact ⟨c, cs, htext, kindOf_of_mem_repr hmem⟩
  | bool b => cases b <;> exact ⟨'#', _, rfl, rfl⟩
  | str s => exact ⟨'"', s.toList ++ ['"'], by simp [display], rfl⟩
  | symbol s => exact absurd rfl h
  | void => exact ⟨'v', _, rfl, rfl⟩

/-- Symbols apart, values with one text are of one kind. -/
theorem typeName_eq_of_display (hv : v.typeName ≠ "symbol") (hw : w.typeName ≠ "symbol")
    (h : v.display = w.display) : v.typeName = w.typeName := by
  rcases display_open hv with ⟨c, cs, htext, hkind⟩
  rcases display_open hw with ⟨d, ds, htext', hkind'⟩
  rw [h, htext'] at htext
  calc
    v.typeName = kindOf c := hkind.symm
    _ = kindOf d := by rw [List.head_eq_of_cons_eq htext]
    _ = w.typeName := hkind'

/-! ## Values of one kind -/

theorem display_int_injective : Function.Injective fun n : Int64 => (int n).display :=
  fun _ _ h => Int64.toInt_inj.1 (Int.repr_inj.1 h)

/-- A string is what its text has between the first character and the last. -/
theorem display_str_injective : Function.Injective fun s : String => (str s).display := by
  intro s t h
  have hquoted : "\"" ++ (s ++ "\"") = "\"" ++ (t ++ "\"") := by
    simpa only [display, String.append_assoc] using h
  have hclosed : s ++ "\"" = t ++ "\"" := (String.append_right_inj "\"").1 hquoted
  exact (String.append_left_inj "\"").1 hclosed

theorem display_symbol_injective : Function.Injective fun s : String => (symbol s).display :=
  Function.injective_id

/-- Values of one kind, symbols included, are told apart by their texts. -/
theorem eq_of_display (hkind : v.typeName = w.typeName) (h : v.display = w.display) : v = w := by
  cases v with
  | int n =>
      cases w with
      | int m => exact congrArg int (display_int_injective h)
      | _ => simp [typeName] at hkind
  | bool b =>
      cases w with
      | bool b' => cases b <;> cases b' <;> simp_all [display]
      | _ => simp [typeName] at hkind
  | str s =>
      cases w with
      | str t => exact congrArg str (display_str_injective h)
      | _ => simp [typeName] at hkind
  | symbol s =>
      cases w with
      | symbol t => exact congrArg symbol (display_symbol_injective h)
      | _ => simp [typeName] at hkind
  | void =>
      cases w with
      | void => rfl
      | _ => simp [typeName] at hkind

/-- Two values have one text if they are the same or if one of them is a symbol that spells the text
of the other, and in no other case. So numbers are told apart by their texts, strings are, although
nothing in them is escaped, and symbols are; and of two values of different kinds with one text, one
is a symbol. -/
theorem display_ambiguous_by_symbols_only :
    (∀ v w : Value, v.display = w.display ↔
      v = w ∨ v = symbol w.display ∨ w = symbol v.display) ∧
    (Function.Injective fun n : Int64 => (int n).display) ∧
    (Function.Injective fun s : String => (str s).display) ∧
    (Function.Injective fun s : String => (symbol s).display) ∧
    ∀ v w : Value, v.typeName ≠ w.typeName → v.typeName ≠ "symbol" → w.typeName ≠ "symbol" →
      v.display ≠ w.display := by
  refine ⟨?_, display_int_injective, display_str_injective, display_symbol_injective, ?_⟩
  · intro v w
    constructor
    · intro h
      by_cases hv : v.typeName = "symbol"
      · rcases typeName_eq_symbol_iff.1 hv with ⟨s, rfl⟩
        exact .inr (.inl (congrArg symbol h))
      by_cases hw : w.typeName = "symbol"
      · rcases typeName_eq_symbol_iff.1 hw with ⟨s, rfl⟩
        exact .inr (.inr (congrArg symbol h.symm))
      · exact .inl (eq_of_display (typeName_eq_of_display hv hw h) h)
    · rintro (rfl | hv | hw)
      · rfl
      · rw [hv]
        rfl
      · rw [hw]
        rfl
  · intro v w hkind hv hw h
    exact hkind (typeName_eq_of_display hv hw h)

/-- A symbol that reads like a string with a quote in it, and a string with the characters of a truth
value. -/
theorem display_of_lookalikes :
    (symbol "\"a\"b\"").display = (str "a\"b").display ∧
      (str "#t").typeName ≠ (bool true).typeName ∧ (str "#t").typeName ≠ "symbol" ∧
      (bool true).typeName ≠ "symbol" ∧ (str "#t").display ≠ (bool true).display := by
  rcases display_ambiguous_by_symbols_only with ⟨hiff, -, -, -, hkinds⟩
  have hspelled : symbol "\"a\"b\"" = symbol (str "a\"b").display := by decide
  have hkind : (str "#t").typeName ≠ (bool true).typeName := by decide
  have hstr : (str "#t").typeName ≠ "symbol" := by decide
  have hbool : (bool true).typeName ≠ "symbol" := by decide
  exact ⟨(hiff _ _).2 (.inr (.inl hspelled)), hkind, hstr, hbool, hkinds _ _ hkind hstr hbool⟩

end Value

end ScopedStore
