import ScopedStore.Address.Words
import ScopedStore.Proofs.Cells.Newest
import ScopedStore.Proofs.Footprint.Entering
import ScopedStore.Proofs.Repeated

/-!
# Exact addresses

An address is exact if the integer that reports it is its index, and it is if a signed integer has
room for the index. Integers from the outside are turned into exact addresses that are ordered as
they are. A store whose number of cells is a signed integer gives out exact addresses only, and tells
the addresses that it refuses by the very integers they were made from.
-/

namespace ScopedStore

/-! ## Results for lists -/

namespace Collected

variable {α β ε : Type} {f : α → Except ε β} {l : List α}

/-- What is collected from a list are results for its members. -/
theorem exists_of_ok : ∀ {collected : List β}, l.mapM f = .ok collected →
    ∀ b ∈ collected, ∃ a ∈ l, f a = .ok b := by
  induction l with
  | nil =>
      intro collected h b hb
      cases h
      cases hb
  | cons a l ih =>
      intro collected h b hb
      rw [List.mapM_cons] at h
      cases ha : f a with
      | error e => simp [ha, bind, Except.bind] at h
      | ok first =>
          cases hl : l.mapM f with
          | error e => simp [ha, hl, bind, Except.bind] at h
          | ok others =>
              have hcons : first :: others = collected := by
                simpa [ha, hl, bind, Except.bind, pure, Except.pure] using h
              subst hcons
              rcases List.mem_cons.1 hb with rfl | hb
              · exact ⟨a, List.mem_cons_self, ha⟩
              · rcases ih hl b hb with ⟨a', hmem, ha'⟩
                exact ⟨a', List.mem_cons_of_mem a hmem, ha'⟩

/-- A failure comes from a member of the list. -/
theorem exists_of_error {e : ε} : l.mapM f = .error e → ∃ a ∈ l, f a = .error e := by
  induction l with
  | nil =>
      intro h
      cases h
  | cons a l ih =>
      intro h
      rw [List.mapM_cons] at h
      cases ha : f a with
      | error e' =>
          have heq : e' = e := by simpa [ha, bind, Except.bind] using h
          exact ⟨a, List.mem_cons_self, heq ▸ ha⟩
      | ok first =>
          cases hl : l.mapM f with
          | ok others => simp [ha, hl, bind, Except.bind, pure, Except.pure] at h
          | error e' =>
              have heq : e' = e := by simpa [ha, hl, bind, Except.bind] using h
              rcases ih (heq ▸ hl) with ⟨a', hmem, ha'⟩
              exact ⟨a', List.mem_cons_of_mem a hmem, ha'⟩

end Collected

/-! ## Addresses and integers -/

namespace Address

def Exact (a : Address) : Prop :=
  a.index < 2 ^ 63

variable {a b : Address} {raw raw' : Int64}

/-- Exact addresses are those which are reported as they are. -/
theorem exact_iff : a.Exact ↔ a.toInt64.toInt = a.index := by
  have hreport := a.toInt_toInt64
  unfold Exact
  omega

/-- The address of a word is exact if a signed integer has room for the word. -/
theorem exact_ofWord_iff (i : UInt64) : (ofWord i).Exact ↔ (signed? i).isSome = true := by
  have hmax : Int64.maxValue.toNatClampNeg = 2 ^ 63 - 1 := by decide
  rw [signed?_isSome_iff, hmax]
  change i.toNat < 2 ^ 63 ↔ i.toNat ≤ 2 ^ 63 - 1
  omega

/-- An integer is turned into the address with this very index. -/
theorem ofRaw_eq_ok_iff : ofRaw raw = .ok a ↔ (a.index : Int) = raw.toInt := by
  rcases Int.lt_or_le raw.toInt 0 with hneg | hnonneg
  · simp only [ofRaw_of_neg hneg, reduceCtorEq, false_iff]
    omega
  · simp only [ofRaw_of_nonneg hnonneg, Except.ok.injEq]
    constructor
    · rintro rfl
      exact Int.toNat_of_nonneg hnonneg
    · intro h
      refine eq_of_index ?_
      simp only
      omega

/-- Only negative integers are refused, each by its own number. -/
theorem ofRaw_eq_error_iff {f : Fault} :
    ofRaw raw = .error f ↔ raw.toInt < 0 ∧ f = .illegalAddress raw := by
  rcases Int.lt_or_le raw.toInt 0 with hneg | hnonneg
  · simp [ofRaw_of_neg hneg, hneg, eq_comm]
  · simp [ofRaw_of_nonneg hnonneg, Int.not_lt.2 hnonneg]

/-- Whatever comes from the outside is exact. -/
theorem exact_of_ofRaw (h : ofRaw raw = .ok a) : a.Exact := by
  have hindex := ofRaw_eq_ok_iff.1 h
  have hlt := raw.toInt_lt
  unfold Exact
  omega

theorem exact_of_mapM {raws : List Int64} {addresses : List Address}
    (h : raws.mapM ofRaw = .ok addresses) : ∀ a ∈ addresses, a.Exact := by
  intro a ha
  rcases Collected.exists_of_ok h a ha with ⟨raw, -, hraw⟩
  exact exact_of_ofRaw hraw

/-- A list of integers is refused for one that is in it and negative. -/
theorem of_mapM_eq_error {raws : List Int64} (h : raws.mapM ofRaw = .error (.illegalAddress raw)) :
    raw ∈ raws ∧ raw.toInt < 0 := by
  rcases Collected.exists_of_error h with ⟨refused, hmem, hrefused⟩
  rcases ofRaw_eq_error_iff.1 hrefused with ⟨hneg, hfault⟩
  cases hfault
  exact ⟨hmem, hneg⟩

/-- How addresses go together with signed integers and with machine words. -/
structure Converts : Prop where
  words : ∀ raw : Int64, ofRaw raw =
    (word? raw).elim (.error (.illegalAddress raw)) fun i => .ok (ofWord i)
  /-- The report of a word is clamped only where no signed integer has its value. -/
  reports : ∀ i : UInt64, (ofWord i).toInt64 = (signed? i).getD Int64.maxValue ∧
    ((ofWord i).Exact ↔ (signed? i).isSome = true)
  index : ∀ (raw : Int64) (a : Address), ofRaw raw = .ok a ↔ (a.index : Int) = raw.toInt
  negative : ∀ (raw : Int64) (f : Fault),
    ofRaw raw = .error f ↔ raw.toInt < 0 ∧ f = .illegalAddress raw
  order : ∀ (raw raw' : Int64) (a b : Address), ofRaw raw = .ok a → ofRaw raw' = .ok b →
    compare a b = compare raw.toInt raw'.toInt ∧ (a = b ↔ raw = raw')
  back : ∀ (raw : Int64) (a : Address), ofRaw raw = .ok a → a.Exact ∧ a.toInt64 = raw

theorem converts : Converts where
  words := ofRaw_eq_word?
  reports := fun i => ⟨toInt64_ofWord i, exact_ofWord_iff i⟩
  index := fun _ _ => ofRaw_eq_ok_iff
  negative := fun _ _ => ofRaw_eq_error_iff
  order := by
    intro raw raw' a b ha hb
    have hindex := ofRaw_eq_ok_iff.1 ha
    have hindex' := ofRaw_eq_ok_iff.1 hb
    refine ⟨?_, ?_⟩
    · rw [← hindex, ← hindex', compare_eq]
      simp only [compare, compareOfLessAndEq, Int.ofNat_lt, Int.ofNat_inj]
    · constructor
      · rintro rfl
        exact Int64.toInt_inj.1 (hindex.symm.trans hindex')
      · rintro rfl
        exact eq_of_index (by omega)
  back := fun _ _ h => ⟨exact_of_ofRaw h, toInt64_of_ofRaw h⟩

end Address

/-! ## Addresses and stores -/

namespace Store

variable {s : Store} {a : Address} {raw : Int64}

def readRaw (s : Store) (raw : Int64) : Except Fault Value :=
  (Address.ofRaw raw).bind s.read

/-- The refusal of an exact address shows its index, which is past the end. -/
theorem read_of_exact (h : a.Exact) {f : Fault} (hread : s.read a = .error f) :
    f = .illegalAddress a.toInt64 ∧ a.toInt64.toInt = a.index ∧ s.size ≤ a.index := by
  rcases Nat.lt_or_ge a.index s.size with hlt | hle
  · have hcell : s.read a = .ok s.cells[a.index] :=
      read_eq_ok_iff.2 (Array.getElem?_eq_getElem hlt)
    cases hread.symm.trans hcell
  · have hfault := read_of_size_le hle
    exact ⟨Except.error.inj (hread.symm.trans hfault), Address.exact_iff.1 h, hle⟩

/-- There is a cell exactly for the integers from zero to the number of cells. -/
theorem readRaw_eq_ok_iff {v : Value} : s.readRaw raw = .ok v ↔
    0 ≤ raw.toInt ∧ raw.toInt < s.size ∧ s.cells[raw.toInt.toNat]? = some v := by
  unfold readRaw
  cases ha : Address.ofRaw raw with
  | error f =>
      have hneg := (Address.ofRaw_eq_error_iff.1 ha).1
      simp only [Except.bind, reduceCtorEq, false_iff]
      omega
  | ok a =>
      have hindex := Address.ofRaw_eq_ok_iff.1 ha
      have hnat : raw.toInt.toNat = a.index := by omega
      rw [hnat]
      simp only [Except.bind, read_eq_ok_iff]
      constructor
      · intro hcell
        have hlt : a.index < s.size := (Array.getElem?_eq_some_iff.1 hcell).1
        exact ⟨by omega, by omega, hcell⟩
      · exact fun h => h.2.2

/-- An integer is refused if no cell can have it or none has it yet, and the refusal repeats it. -/
theorem readRaw_eq_error_iff {f : Fault} : s.readRaw raw = .error f ↔
    f = .illegalAddress raw ∧ (raw.toInt < 0 ∨ s.size ≤ raw.toInt) := by
  unfold readRaw
  cases ha : Address.ofRaw raw with
  | error g =>
      rcases Address.ofRaw_eq_error_iff.1 ha with ⟨hneg, rfl⟩
      simp [Except.bind, hneg, eq_comm]
  | ok a =>
      have hindex := Address.ofRaw_eq_ok_iff.1 ha
      have hback := Address.toInt64_of_ofRaw ha
      simp only [Except.bind]
      constructor
      · intro hread
        rcases read_of_exact (Address.exact_of_ofRaw ha) hread with ⟨rfl, -, hle⟩
        exact ⟨by rw [hback], .inr (by omega)⟩
      · rintro ⟨rfl, hneg | hle⟩
        · omega
        · simpa [hback] using read_of_size_le (show s.size ≤ a.index by omega)

/-- A write changes only what could have been read. -/
theorem read_of_write_ne {v : Value} (h : (s.write a v).value ≠ s) : ∃ w, s.read a = .ok w := by
  rcases Nat.lt_or_ge a.index s.size with hlt | hle
  · exact ⟨_, read_eq_ok_iff.2 (Array.getElem?_eq_getElem hlt)⟩
  · exact absurd (write_of_size_le hle v).1 h

/-- How a store deals with integers that name cells, and with the addresses that it gives out. -/
structure AnswersExactly (s : Store) : Prop where
  read_ok : ∀ (raw : Int64) (v : Value), s.readRaw raw = .ok v ↔
    0 ≤ raw.toInt ∧ raw.toInt < s.size ∧ s.cells[raw.toInt.toNat]? = some v
  read_error : ∀ (raw : Int64) (f : Fault), s.readRaw raw = .error f ↔
    f = .illegalAddress raw ∧ (raw.toInt < 0 ∨ s.size ≤ raw.toInt)
  /-- A negative integer is refused before the store is looked at. -/
  negative : ∀ raw : Int64, raw.toInt < 0 → Address.ofRaw raw = .error (.illegalAddress raw)
  /-- An integer from the number of cells on is an address, which the store refuses. -/
  beyond : ∀ raw : Int64, s.size ≤ raw.toInt → ∃ a, Address.ofRaw raw = .ok a ∧
    (a.index : Int) = raw.toInt ∧ s.read a = .error (.illegalAddress raw)
  write : ∀ (a : Address) (v : Value), (s.write a v).value ≠ s → ∃ w, s.read a = .ok w
  /-- The addresses of a store that has room are exact, be they new or found. -/
  alloc : ∀ v : Value, (s.alloc v).value.2.size ≤ 2 ^ 63 - 1 → (s.alloc v).value.1.Exact
  allocAll : ∀ vs : List Value, (s.allocAll vs).value.2.size ≤ 2 ^ 63 - 1 →
    ∀ a ∈ (s.allocAll vs).value.1, a.Exact
  found : ∀ (v : Value) (a : Address), s.size ≤ 2 ^ 63 - 1 → s.lastAddressOf? v = some a → a.Exact
  /-- The fault of a read reports the address that was read. -/
  fault : ∀ (a : Address) (f : Fault), a.Exact → s.read a = .error f →
    ∃ raw : Int64, f = .illegalAddress raw ∧ raw.toInt = a.index

theorem answersExactly (s : Store) : s.AnswersExactly where
  read_ok := fun _ _ => readRaw_eq_ok_iff
  read_error := fun _ _ => readRaw_eq_error_iff
  negative := fun _ h => Address.ofRaw_of_neg h
  beyond := by
    intro raw hle
    have hnonneg : 0 ≤ raw.toInt := by omega
    have ha := Address.ofRaw_of_nonneg hnonneg
    have hindex := Address.ofRaw_eq_ok_iff.1 ha
    have hread := (readRaw_eq_error_iff (s := s)).2 ⟨rfl, .inr hle⟩
    refine ⟨_, ha, hindex, ?_⟩
    simpa [readRaw, ha, Except.bind] using hread
  write := fun _ _ => read_of_write_ne
  alloc := by
    intro v hsize
    have hgrown : (s.alloc v).value.2.size = s.size + 1 := by simp [size]
    change s.size < 2 ^ 63
    omega
  allocAll := by
    intro vs hsize a ha
    have hgrown : (s.allocAll vs).value.2.size = s.size + vs.length := by simp [size]
    simp only [value_allocAll] at ha
    rcases List.mem_map.1 ha with ⟨i, hi, rfl⟩
    have hlt := (List.mem_range'_1.1 hi).2
    change i < 2 ^ 63
    omega
  found := by
    intro v a hsize hfound
    have hlt := ((s.lastBelow_eq_some_iff v s.size a).1 hfound).below
    change a.index < 2 ^ 63
    omega
  fault := by
    intro a f hexact hread
    rcases read_of_exact hexact hread with ⟨rfl, hindex, -⟩
    exact ⟨_, rfl, hindex⟩

end Store

end ScopedStore
