import ScopedStore.Address

/-!
# Addresses in machine words

On a machine of 64 bits an index is an unsigned word, and neither crossing between words and signed
integers is total. A negative integer has no word. A word of the upper half has no signed integer,
and the largest one is reported in its place. Below the number of words there are, this is what
addresses with unbounded indices do.
-/

namespace ScopedStore.Address

def word? (raw : Int64) : Option UInt64 :=
  if raw < 0 then none else some raw.toUInt64

def signed? (i : UInt64) : Option Int64 :=
  if i ≤ Int64.maxValue.toUInt64 then some i.toInt64 else none

def ofWord (i : UInt64) : Address :=
  ⟨i.toNat⟩

/-- An integer is accepted as an address exactly if it has a word, and the word is then the index.
-/
theorem ofRaw_eq_word? (raw : Int64) :
    ofRaw raw = (word? raw).elim (.error (.illegalAddress raw)) fun i => .ok (ofWord i) := by
  have hneg : raw < 0 ↔ raw.toInt < 0 := Int64.lt_iff_toInt_lt
  by_cases h : raw.toInt < 0
  · simp [word?, hneg, h, ofRaw_of_neg h]
  · have hle : 0 ≤ raw := Int64.not_lt.1 fun hlt => h (hneg.1 hlt)
    have hnat : raw.toUInt64.toNat = raw.toInt.toNat := Int64.toNat_toUInt64_of_le hle
    simp [word?, hneg, h, ofRaw_of_nonneg (Int.not_lt.1 h), ofWord, hnat]

/-- The words with a signed integer are those of the lower half. -/
theorem signed?_isSome_iff (i : UInt64) :
    (signed? i).isSome = true ↔ i.toNat ≤ Int64.maxValue.toNatClampNeg := by
  have hmax : Int64.maxValue.toUInt64.toNat = Int64.maxValue.toNatClampNeg := by decide
  simp [signed?, UInt64.le_iff_toNat_le, hmax]

/-- A word is reported by its signed integer, or by the largest integer if it has none. -/
theorem toInt64_ofWord (i : UInt64) :
    (ofWord i).toInt64 = (signed? i).getD Int64.maxValue := by
  have hsigned := signed?_isSome_iff i
  by_cases h : i ≤ Int64.maxValue.toUInt64
  · have hle : i.toNat ≤ Int64.maxValue.toNatClampNeg := hsigned.1 (by simp [signed?, h])
    have hword : Int64.ofNat i.toNat = i.toInt64 := by
      rw [← UInt64.toInt64_ofNat', UInt64.ofNat_toNat]
    simp [toInt64, ofWord, signed?, h, Nat.min_eq_left hle, hword]
  · have hle : Int64.maxValue.toNatClampNeg ≤ i.toNat := by
      refine Nat.le_of_not_le fun hle => ?_
      simpa [signed?, h] using hsigned.2 hle
    have hclamped : Int64.ofNat Int64.maxValue.toNatClampNeg = Int64.maxValue := by decide
    simp only [toInt64, ofWord, signed?, h, Nat.min_eq_right hle, hclamped]
    rfl

end ScopedStore.Address
