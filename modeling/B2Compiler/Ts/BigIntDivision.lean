import B2Compiler.Ts.BigIntText

/-!
# BigInt division

A divisor of one limb is divided by limb by limb.  The long division for larger ones
normalizes toward the wrong neighbour and adds the product where it means to subtract it.
-/

namespace B2Compiler.Ts.BigInt

open B2Compiler.Lib List

variable {a b : BigInt}

def normalShift : Nat → BitVec 32 → Nat → Nat
  | 0, _, shift => shift
  | n + 1, top, shift =>
    if top <<< shift < 0x80000000 then normalShift n top (shift + 1) else shift

/-- Each limb with the high bits of the limb above it. -/
def normalizeLimbs (shift : Nat) : List (BitVec 32) → List (BitVec 32)
  | x :: y :: xs =>
    ((x <<< shift) ||| (if shift > 0 then y >>> (32 - shift) else 0)) ::
      normalizeLimbs shift (y :: xs)
  | xs => xs.map fun x : BitVec 32 => x <<< shift

def unnormalizeLimbs (shift : Nat) : List (BitVec 32) → List (BitVec 32)
  | x :: y :: xs =>
    ((x >>> shift) ||| (if shift > 0 then y <<< (32 - shift) else 0)) ::
      unnormalizeLimbs shift (y :: xs)
  | xs => xs.map fun x : BitVec 32 => x >>> shift

/-- The corrections of a digit; `rhat` grows past 32 bits within two of them. -/
def correctDigit (b₁ b₂ a₂ : BitVec 32) : Nat → BitVec 64 → BitVec 64 → BitVec 64
  | 0, qhat, _ => qhat
  | n + 1, qhat, rhat =>
    if qhat > 0xFFFFFFFF ∨ qhat * b₂.setWidth 64 > (rhat <<< 32 ||| a₂.setWidth 64) then
      let rhat := rhat + b₁.setWidth 64
      if rhat > 0xFFFFFFFF then qhat - 1 else correctDigit b₁ b₂ a₂ n (qhat - 1) rhat
    else qhat

/-- `a += b * mul`, with the carry going on as far as `a` reaches. -/
def addMulShift (mul : BitVec 32) : List (BitVec 32) → List (BitVec 32) → BitVec 64 →
    List (BitVec 32)
  | x :: a, y :: b, carry =>
    let cur := x.setWidth 64 + y.setWidth 64 * mul.setWidth 64 + carry
    lowLimb cur :: addMulShift mul a b (cur >>> 32)
  | x :: a, [], carry =>
    if carry = 0 then x :: a
    else
      let cur := x.setWidth 64 + carry
      lowLimb cur :: addMulShift mul a [] (cur >>> 32)
  | [], _, _ => []

/-- The divisor added back once, the carry into the limb above it. -/
def addBack : List (BitVec 32) → List (BitVec 32) → BitVec 64 → List (BitVec 32)
  | x :: a, y :: b, carry =>
    let cur := x.setWidth 64 + y.setWidth 64 + carry
    lowLimb cur :: addBack a b (cur >>> 32)
  | _ :: a, [], carry => lowLimb carry :: a
  | [], _, _ => []

/-- One digit of the quotient, from as many limbs of the dividend as the divisor has and one
more. -/
def divideDigit (bn window : List (BitVec 32)) : BitVec 32 × List (BitVec 32) :=
  let n := bn.length
  let b₁ := bn.getD (n - 1) 0
  let num := (window.getD n 0).setWidth 64 <<< 32 ||| (window.getD (n - 1) 0).setWidth 64
  let qhat := correctDigit b₁ (bn.getD (n - 2) 0) (window.getD (n - 2) 0) 2
    (num / b₁.setWidth 64) (num % b₁.setWidth 64)
  let window := addMulShift (qhat.setWidth 32) window bn 0
  if window.getD n 0 ≠ 0 then ((qhat - 1).setWidth 32, addBack window bn 0)
  else (qhat.setWidth 32, window)

/-- The loop over the digits, the high digit first: the quotient and what is left. -/
def longDivision (bn : List (BitVec 32)) : List (BitVec 32) → List (BitVec 32) × List (BitVec 32)
  | [] => ([], [])
  | x :: an =>
    if an.length < bn.length then ([], x :: an)
    else
      let (q, rest) := longDivision bn an
      let (digit, window) := divideDigit bn ((x :: rest).take (bn.length + 1))
      (digit :: q, window ++ (x :: rest).drop (bn.length + 1))

/-- Quotient and remainder; nothing for a zero divisor. -/
def divMod (a b : BigInt) : Option (BigInt × BigInt) :=
  let negative := a.negative != b.negative
  if b.limbs = [] then none
  else if compareMag a b < 0 then some ({}, a)
  else if b.limbs.length = 1 then
    let (q, rem) := shortDivision ((b.limbs.headD 0).setWidth 64) a.limbs
    some (canonicalize ⟨negative, q⟩,
      canonicalize ⟨a.negative, if rem ≠ 0 then [rem.setWidth 32] else []⟩)
  else
    let shift := normalShift 32 (b.limbs.getLastD 0) 0
    let bn := normalizeLimbs shift b.limbs
    let (q, rest) := longDivision bn (normalizeLimbs shift a.limbs ++ [0])
    some (canonicalize ⟨negative, q⟩,
      canonicalize ⟨a.negative, unnormalizeLimbs shift (rest.take bn.length)⟩)

/-- Canonical `q` and `r` with `a = q * b + r`, the remainder small and of the sign of `a`. -/
def Divides (a b : BigInt) : Prop :=
  ∃ q r, divMod a b = some (q, r) ∧ Canonical q ∧ Canonical r ∧
    a.toInt = q.toInt * b.toInt + r.toInt ∧ r.toInt.natAbs < b.toInt.natAbs ∧
    (r.toInt = 0 ∨ (r.toInt < 0 ↔ a.toInt < 0))

theorem divides_of_mag_lt (ha : Canonical a) (hb : Canonical b) (h : mag a.limbs < mag b.limbs) :
    Divides a b := by
  have hNil : b.limbs ≠ [] := by
    intro hEq
    rw [hEq] at h
    exact Nat.not_lt_zero _ h
  have hCmp : compareMag a b < 0 := by
    rw [compareMag_eq ha.trimmed hb.trimmed, Int.sign_neg_iff]
    omega
  refine ⟨{}, a, by rw [divMod, if_neg hNil, if_pos hCmp], by decide, ha, ?_, ?_, .inr Iff.rfl⟩
  · rw [show toInt {} = 0 from rfl, zero_mul, zero_add]
  · rwa [natAbs_toInt, natAbs_toInt]

theorem divides_of_one_limb (ha : Canonical a) (hb : Canonical b) (h : b.limbs.length = 1)
    (hLe : mag b.limbs ≤ mag a.limbs) : Divides a b := by
  obtain ⟨d, hLimbs⟩ := length_eq_one_iff.mp h
  have hMagB : mag b.limbs = d.toNat := by simp [hLimbs, mag]
  have hd : 0 < d.toNat := by
    refine Nat.pos_of_ne_zero fun hZero => hb.trimmed ?_
    rw [hLimbs]
    exact congrArg some (BitVec.eq_of_toNat_eq hZero)
  have hCmp : ¬ compareMag a b < 0 := by
    rw [compareMag_eq ha.trimmed hb.trimmed, Int.sign_neg_iff]
    omega
  have hWide : (d.setWidth 64).toNat = d.toNat := by
    rw [BitVec.toNat_setWidth, Nat.mod_eq_of_lt (by have := d.isLt; omega)]
  obtain ⟨hMag, hRem⟩ := shortDivision_eq a.limbs (d := d.setWidth 64) (hWide ▸ hd)
    (by have := d.isLt; omega)
  rcases hDiv : shortDivision (d.setWidth 64) a.limbs with ⟨q, rem⟩
  rw [hDiv, hWide] at hMag hRem
  have hMagR : mag (if rem ≠ 0 then [rem.setWidth 32] else []) = rem.toNat := by
    by_cases hR : rem = 0
    · simp [hR, mag]
    · rw [if_pos hR, mag, mag, BitVec.toNat_setWidth, Nat.mod_eq_of_lt (Nat.lt_trans hRem d.isLt)]
      rfl
  refine ⟨canonicalize ⟨a.negative != b.negative, q⟩,
    canonicalize ⟨a.negative, if rem ≠ 0 then [rem.setWidth 32] else []⟩,
    by simp [divMod, hLimbs, hCmp, hDiv], canonical_canonicalize _, canonical_canonicalize _,
    ?_, ?_, ?_⟩
  all_goals
    rw [toInt_canonicalize]
  · rw [toInt_canonicalize]
    simp only [toInt, hMagR, hMag, hMagB]
    push_cast
    cases a.negative <;> cases b.negative <;> simp <;> ring
  · rwa [natAbs_toInt, natAbs_toInt, hMagR, hMagB]
  · simp only [toInt, hMagR]
    cases hNeg : a.negative with
    | true | false => simp; omega

/-- Division by a larger number, or by one limb, is exact. -/
theorem divMod_exact (ha : Canonical a) (hb : Canonical b) (hZero : b.limbs ≠ [])
    (h : mag a.limbs < mag b.limbs ∨ b.limbs.length = 1) : Divides a b := by
  by_cases hLt : mag a.limbs < mag b.limbs
  · exact divides_of_mag_lt ha hb hLt
  · exact divides_of_one_limb ha hb (h.resolve_left hLt) (Nat.le_of_not_lt hLt)

/-- Three limbs by one. -/
theorem divMod_exact_one_limb : Divides ⟨true, [5, 0, 9]⟩ ⟨false, [7]⟩ :=
  divMod_exact (by decide) (by decide) (by decide) (.inr rfl)

/-- Two limbs divided by themselves. -/
theorem not_divMod_exact : divMod ⟨false, [0, 0x80000000]⟩ ⟨false, [0, 0x80000000]⟩ =
      some ({}, ⟨false, [0, 0x80000000]⟩) ∧
      ¬ Divides ⟨false, [0, 0x80000000]⟩ ⟨false, [0, 0x80000000]⟩ := by
  have hRun : divMod ⟨false, [0, 0x80000000]⟩ ⟨false, [0, 0x80000000]⟩ =
      some ({}, ⟨false, [0, 0x80000000]⟩) := by decide +kernel
  refine ⟨hRun, ?_⟩
  rintro ⟨q, r, h, -, -, -, hLt, -⟩
  cases hRun.symm.trans h
  exact Nat.lt_irrefl _ hLt

end B2Compiler.Ts.BigInt
