import Mathlib.Data.Rat.Floor

/-!
# Values of binary64 bit patterns

The value a double-precision pattern denotes, as a rational; the two infinities get
the first magnitude beyond the finite range, which is all an order comparison can
see of them.  Not-a-number patterns denote nothing meaningful here and every use
excludes them.
-/

namespace B2Compiler.Lib

open BitVec

/-- The number a binary64 pattern denotes. -/
def doubleVal (b : BitVec 64) : ℚ :=
  let e := (b.extractLsb' 52 11).toNat
  let m := (b.extractLsb' 0 52).toNat
  let magnitude : ℚ :=
    if e = 0 then (m : ℚ) * (2 : ℚ) ^ (-1074 : ℤ)
    else ((2 : ℚ) ^ 52 + m) * (2 : ℚ) ^ ((e : ℤ) - 1075)
  if b.msb then -magnitude else magnitude

/-- Rounding toward zero. -/
def truncate (q : ℚ) : ℤ := if 0 ≤ q then ⌊q⌋ else ⌈q⌉

theorem doubleVal_normal (b : BitVec 64) (s : Bool) (e m : Nat)
    (h : b.msb = s ∧ (b.extractLsb' 52 11).toNat = e + 1 ∧ (b.extractLsb' 0 52).toNat = m) :
    doubleVal b = (if s then -1 else 1) * (((2 : ℚ) ^ 52 + m) * (2 : ℚ) ^ ((e : ℤ) - 1074)) := by
  obtain ⟨hs, he, hm⟩ := h
  have hexp : ((e + 1 : ℕ) : ℤ) - 1075 = (e : ℤ) - 1074 := by omega
  simp only [doubleVal, hs, he, hm, if_neg e.succ_ne_zero, hexp]
  cases s <;> simp

theorem doubleVal_two_pow_63 : doubleVal 0x43E0000000000000 = 2 ^ 63 := by
  rw [doubleVal_normal _ false 1085 0 (by decide)]; norm_num

theorem doubleVal_neg_two_pow_63 : doubleVal 0xC3E0000000000000 = -2 ^ 63 := by
  rw [doubleVal_normal _ true 1085 0 (by decide)]; norm_num

theorem doubleVal_two_pow_31 : doubleVal 0x41E0000000000000 = 2 ^ 31 := by
  rw [doubleVal_normal _ false 1053 0 (by decide)]; norm_num

theorem doubleVal_neg_two_pow_31 : doubleVal 0xC1E0000000000000 = -2 ^ 31 := by
  rw [doubleVal_normal _ true 1053 0 (by decide)]; norm_num

theorem doubleVal_intMax : doubleVal 0x41DFFFFFFFC00000 = 2 ^ 31 - 1 := by
  rw [doubleVal_normal _ false 1052 4503599623176192 (by decide)]; norm_num

/-- Between two neighbouring integers, on the positive side, truncation picks the lower. -/
theorem truncate_eq_of_between {q : ℚ} {k : ℤ} (hk : 0 ≤ k) (hlo : (k : ℚ) ≤ q)
    (hhi : q < k + 1) : truncate q = k := by
  have hNonneg : 0 ≤ q := le_trans (by exact_mod_cast hk) hlo
  rw [truncate, if_pos hNonneg, Int.floor_eq_iff]
  exact ⟨hlo, hhi⟩

theorem truncate_intCast (k : ℤ) : truncate (k : ℚ) = k := by
  simp [truncate]

end B2Compiler.Lib
