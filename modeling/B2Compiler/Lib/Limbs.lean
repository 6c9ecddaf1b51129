import Mathlib.Data.List.DropRight
import Mathlib.Data.Nat.Digits.Lemmas

/-!
# Magnitudes kept in limbs

A natural number as a list of machine words, the low word first.  A list without a zero
word at its end is `Trimmed`; trimmed lists of one magnitude are equal, and they are
ordered by their lengths first.
-/

namespace B2Compiler.Lib

open List Nat

variable {w : Nat}

/-- The number the limbs denote. -/
def mag : List (BitVec w) → Nat
  | [] => 0
  | x :: xs => x.toNat + 2 ^ w * mag xs

theorem mag_eq_ofDigits (xs : List (BitVec w)) :
    mag xs = ofDigits (2 ^ w) (xs.map BitVec.toNat) := by
  induction xs with
  | nil => rfl
  | cons x xs ih => rw [mag, map_cons, ofDigits_cons, ih]

theorem mag_lt (xs : List (BitVec w)) : mag xs < (2 ^ w) ^ xs.length := by
  induction xs with
  | nil => exact one_pos
  | cons x xs ih =>
    have hx := x.isLt
    have hStep : 2 ^ w * (mag xs + 1) ≤ 2 ^ w * (2 ^ w) ^ xs.length :=
      mul_le_mul_left _ ih
    rw [mag, length_cons, pow_succ']
    rw [mul_succ] at hStep
    omega

theorem mag_append (xs ys : List (BitVec w)) :
    mag (xs ++ ys) = mag xs + (2 ^ w) ^ xs.length * mag ys := by
  induction xs with
  | nil => simp [mag]
  | cons x xs ih =>
    rw [cons_append, mag, ih, mag, length_cons, pow_succ']
    ring

/-! ## Trimmed lists -/

/-- The last limb, if there is one, is not zero. -/
def Trimmed (xs : List (BitVec w)) : Prop := xs.getLast? ≠ some 0

instance (xs : List (BitVec w)) : Decidable (Trimmed xs) :=
  inferInstanceAs (Decidable (_ ≠ _))

/-- The limbs without the zeros at their end. -/
def trim (xs : List (BitVec w)) : List (BitVec w) := xs.rdropWhile (· == 0)

theorem mag_concat_zero (xs : List (BitVec w)) : mag (xs ++ [0]) = mag xs := by
  rw [mag_append, mag, mag]
  simp

theorem mag_trim (xs : List (BitVec w)) : mag (trim xs) = mag xs := by
  induction xs using reverseRecOn with
  | nil => rfl
  | append_singleton xs x ih =>
    rw [trim, rdropWhile_concat]
    by_cases hx : x = 0
    · subst hx
      rw [if_pos (by simp), mag_concat_zero]
      exact ih
    · rw [if_neg (by simpa using hx)]

theorem trimmed_trim (xs : List (BitVec w)) : Trimmed (trim xs) := by
  induction xs using reverseRecOn with
  | nil => nofun
  | append_singleton xs x ih =>
    rw [trim, rdropWhile_concat]
    by_cases hx : x = 0
    · rw [if_pos (by simpa using hx)]
      exact ih
    · rw [if_neg (by simpa using hx), Trimmed, getLast?_concat]
      intro hEq
      exact hx (Option.some.inj hEq)

/-- Trimmed limbs are the digits of their magnitude. -/
theorem digits_mag {xs : List (BitVec w)} (hw : 0 < w) (h : Trimmed xs) :
    digits (2 ^ w) (mag xs) = xs.map BitVec.toNat := by
  rw [mag_eq_ofDigits]
  apply Nat.digits_ofDigits
  · exact Nat.one_lt_two_pow hw.ne'
  · intro d hd
    obtain ⟨x, -, rfl⟩ := mem_map.mp hd
    exact x.isLt
  · intro hNe hZero
    rw [getLast_map] at hZero
    apply h
    rw [getLast?_eq_some_getLast (by simpa using hNe)]
    exact congrArg some (BitVec.eq_of_toNat_eq hZero)

theorem eq_of_mag_eq {xs ys : List (BitVec w)} (hw : 0 < w) (hx : Trimmed xs) (hy : Trimmed ys)
    (h : mag xs = mag ys) : xs = ys := by
  have hDigits : xs.map BitVec.toNat = ys.map BitVec.toNat := by
    rw [← digits_mag hw hx, ← digits_mag hw hy, h]
  exact map_injective_iff.mpr (fun a b => BitVec.eq_of_toNat_eq) hDigits

theorem eq_nil_of_mag_eq_zero {xs : List (BitVec w)} (hw : 0 < w) (hx : Trimmed xs)
    (h : mag xs = 0) : xs = [] :=
  eq_of_mag_eq hw hx (by nofun) h

/-- Of two trimmed lists the shorter one has the smaller magnitude. -/
theorem mag_lt_of_length_lt {xs ys : List (BitVec w)} (hy : Trimmed ys)
    (h : xs.length < ys.length) : mag xs < mag ys := by
  induction ys using reverseRecOn with
  | nil => exact absurd h (not_lt_zero _)
  | append_singleton ys y _ =>
    have hNe : y ≠ 0 := by
      intro hEq
      apply hy
      rw [getLast?_concat, hEq]
    have hPos : 0 < y.toNat := by
      rcases Nat.eq_zero_or_pos y.toNat with hZero | hPos
      · exact absurd (BitVec.eq_of_toNat_eq hZero) hNe
      · exact hPos
    have hLen : xs.length ≤ ys.length := by
      rw [length_append, length_singleton] at h
      omega
    calc mag xs < (2 ^ w) ^ xs.length := mag_lt xs
      _ ≤ (2 ^ w) ^ ys.length := Nat.pow_le_pow_right (Nat.two_pow_pos w) hLen
      _ ≤ (2 ^ w) ^ ys.length * y.toNat := Nat.le_mul_of_pos_right _ hPos
      _ ≤ mag (ys ++ [y]) := by
        rw [mag_append, mag, mag, mul_zero, add_zero]
        exact le_add_left _ _

end B2Compiler.Lib
