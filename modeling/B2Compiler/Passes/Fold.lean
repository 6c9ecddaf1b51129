import B2Compiler.Ir.Exec
import B2Compiler.Lib.Ieee

/-!
# The shared constant evaluator

The value-level fold of the simplifier, which the constant propagation uses as its
transfer function: exact wrap-around integers, the two special division pairs, a
refusal for a zero divisor, and floating-point folds only where no operand or result
is a not-a-number.  `evalUnaryOp_sound` and `evalBinOp_sound` say that whatever it
folds is what the operation yields at run time.
-/

namespace B2Compiler.Passes

open Interp
open Ir
open Lib

inductive ConstVal where
  | i (v : BitVec 32)
  | l (v : BitVec 64)
  | f (bits : BitVec 32)
  | d (bits : BitVec 64)
  | null
  deriving DecidableEq, Repr, Inhabited

/-- The run-time value of a constant. -/
def ConstVal.toVal : ConstVal → Val
  | .i v => .int v
  | .l v => .long v
  | .f v => .float v
  | .d v => .double v
  | .null => .null

/-- The type of a constant of this flavour. -/
def ConstVal.flavorType : ConstVal → IRType
  | .i _ => .int
  | .l _ => .long
  | .f _ => .float
  | .d _ => .double
  | .null => .null

/-- The constant a live constant node carries. -/
def constOf (g : Graph) (n : NodeId) : Option ConstVal :=
  let nd := g.node n
  if nd.dead then none
  else match nd.kind with
    | .constantI => some (.i (nd.constValue.setWidth 32))
    | .constantL => some (.l nd.constValue)
    | .constantF => some (.f (nd.constValue.setWidth 32))
    | .constantD => some (.d nd.constValue)
    | .constantNull => some .null
    | _ => none

/-- The constant node for a folded value. -/
def makeConstNode (g : Graph) : ConstVal → Graph × NodeId
  | .i v => g.make { kind := .constantI, constValue := v.signExtend 64 }
  | .l v => g.make { kind := .constantL, constValue := v }
  | .f v => g.make { kind := .constantF, constValue := v.setWidth 64 }
  | .d v => g.make { kind := .constantD, constValue := v }
  | .null => g.make { kind := .constantNull }

/-- Division with the one overflowing pair special-cased. -/
def javaDiv {w : Nat} (a b : BitVec w) : BitVec w :=
  if a = BitVec.intMin w ∧ b = -1 then BitVec.intMin w
  else BitVec.ofInt w (a.toInt.tdiv b.toInt)

def javaRem {w : Nat} (a b : BitVec w) : BitVec w :=
  if a = BitVec.intMin w ∧ b = -1 then 0
  else BitVec.ofInt w (a.toInt.tmod b.toInt)

/-- `(a > b) - (a < b)`. -/
def threeWay (gt lt : Bool) : BitVec 32 :=
  (if gt then 1 else 0) - (if lt then 1 else 0)

def foldIntBin (k : NodeKind) (a b : BitVec 32) : Option (BitVec 32) :=
  match k with
  | .addI => some (a + b)
  | .subI => some (a - b)
  | .mulI => some (a * b)
  | .andI => some (a &&& b)
  | .orI => some (a ||| b)
  | .xorI => some (a ^^^ b)
  | .shlI => some (a <<< (b &&& 31#32).toNat)
  | .shrI => some (a.sshiftRight (b &&& 31#32).toNat)
  | .ushrI => some (a >>> (b &&& 31#32).toNat)
  | .divI => if b = 0 then none else some (javaDiv a b)
  | .remI => if b = 0 then none else some (javaRem a b)
  | .cmpI => some (threeWay (a.toInt > b.toInt) (a.toInt < b.toInt))
  | .eqI => some (if a = b then 1 else 0)
  | .neI => some (if a ≠ b then 1 else 0)
  | .ltI => some (if a.toInt < b.toInt then 1 else 0)
  | .leI => some (if a.toInt ≤ b.toInt then 1 else 0)
  | .gtI => some (if a.toInt > b.toInt then 1 else 0)
  | .geI => some (if a.toInt ≥ b.toInt then 1 else 0)
  | _ => none

/-- The long folds; `cmpL` is handled by the caller, whose result is an `int`. -/
def foldLongBin (k : NodeKind) (a b : BitVec 64) : Option (BitVec 64) :=
  match k with
  | .addL => some (a + b)
  | .subL => some (a - b)
  | .mulL => some (a * b)
  | .andL => some (a &&& b)
  | .orL => some (a ||| b)
  | .xorL => some (a ^^^ b)
  | .shlL => some (a <<< (b &&& 63#64).toNat)
  | .shrL => some (a.sshiftRight (b &&& 63#64).toNat)
  | .ushrL => some (a >>> (b &&& 63#64).toNat)
  | .divL => if b = 0 then none else some (javaDiv a b)
  | .remL => if b = 0 then none else some (javaRem a b)
  | .cmpL => some ((threeWay (a.toInt > b.toInt) (a.toInt < b.toInt)).signExtend 64)
  | _ => none

/-! ## Floating-point folds -/

section

variable (F : FloatOps)

/-- The arithmetic result, withheld when it is not a number. -/
def exactF (r : BitVec 32) : Option (BitVec 32) := if isNanF r then none else some r

def exactD (r : BitVec 64) : Option (BitVec 64) := if isNanD r then none else some r

def foldFloatBin (k : NodeKind) (a b : BitVec 32) : Option (BitVec 32) :=
  if isNanF a || isNanF b then none
  else match k with
    | .addF => exactF (F.addF a b)
    | .subF => exactF (F.subF a b)
    | .mulF => exactF (F.mulF a b)
    | .divF => exactF (F.divF a b)
    | .remF =>
      -- A zero divisor or an infinite dividend has no remainder.
      if b &&& 0x7FFFFFFF == 0 || a &&& 0x7FFFFFFF == 0x7F800000 then none
      else exactF (F.fmodF a b)
    | _ => none

def foldDoubleBin (k : NodeKind) (a b : BitVec 64) : Option (BitVec 64) :=
  if isNanD a || isNanD b then none
  else match k with
    | .addD => exactD (F.addD a b)
    | .subD => exactD (F.subD a b)
    | .mulD => exactD (F.mulD a b)
    | .divD => exactD (F.divD a b)
    | .remD =>
      if b &&& 0x7FFFFFFFFFFFFFFF == 0 || a &&& 0x7FFFFFFFFFFFFFFF == 0x7FF0000000000000
      then none
      else exactD (F.fmodD a b)
    | _ => none

/-- Comparison of two doubles; `nan` is the answer when one is not a number. -/
def foldCmp (nan : BitVec 32) (x y : BitVec 64) : BitVec 32 :=
  if isNanD x || isNanD y then nan else threeWay (F.ltD y x) (F.ltD x y)

/-- Narrowing of a double to an integer, saturating at the bounds of the target. -/
def fpToInt64 (v : BitVec 64) (isLong : Bool) : BitVec 64 :=
  if isNanD v then 0
  else if !F.ltD v 0x43E0000000000000 then
    if isLong then BitVec.intMax 64 else (BitVec.intMax 32).signExtend 64
  else if !F.ltD 0xC3E0000000000000 v then
    if isLong then BitVec.intMin 64 else (BitVec.intMin 32).signExtend 64
  else if !isLong && F.ltD 0x41DFFFFFFFC00000 v then (BitVec.intMax 32).signExtend 64
  else if !isLong && F.ltD v 0xC1E0000000000000 then (BitVec.intMin 32).signExtend 64
  else BitVec.ofInt 64 (F.truncD v)

def evalBinOp (k : NodeKind) : ConstVal → ConstVal → Option ConstVal
  | .i a, .i b => (foldIntBin k a b).map .i
  | .l a, .l b => (foldLongBin k a b).map fun r => if k = .cmpL then .i (r.setWidth 32) else .l r
  | .f a, .f b =>
    match foldFloatBin F k a b with
    | some r => some (.f r)
    | none =>
      if k = .cmpFl then some (.i (foldCmp F (-1) (F.f2d a) (F.f2d b)))
      else if k = .cmpFg then some (.i (foldCmp F 1 (F.f2d a) (F.f2d b)))
      else none
  | .d a, .d b =>
    match foldDoubleBin F k a b with
    | some r => some (.d r)
    | none =>
      if k = .cmpDl then some (.i (foldCmp F (-1) a b))
      else if k = .cmpDg then some (.i (foldCmp F 1 a b))
      else none
  | _, _ => none

/-- One-operand fold. -/
def evalUnaryOp : NodeKind → ConstVal → Option ConstVal
  | .negI, .i a => some (.i (0 - a))
  | .not, .i a => some (.i (if a = 0 then 1 else 0))
  | .negL, .l a => some (.l (0 - a))
  | .negF, .f a => some (.f (a ^^^ 0x80000000))
  | .negD, .d a => some (.d (a ^^^ 0x8000000000000000))
  | .i2l, .i a => some (.l (a.signExtend 64))
  | .l2i, .l a => some (.i (a.setWidth 32))
  | .i2b, .i a => some (.i ((a.setWidth 8).signExtend 32))
  | .i2c, .i a => some (.i (a &&& 0xFFFF))
  | .i2s, .i a => some (.i ((a.setWidth 16).signExtend 32))
  | .i2f, .i a => some (.f (F.ofInt32F a))
  | .i2d, .i a => some (.d (F.ofInt32D a))
  | .l2f, .l a => some (.f (F.ofInt64F a))
  | .l2d, .l a => some (.d (F.ofInt64D a))
  | .f2i, .f a => some (.i ((fpToInt64 F (F.f2d a) false).setWidth 32))
  | .f2l, .f a => some (.l (fpToInt64 F (F.f2d a) true))
  | .f2d, .f a => if isNanF a then none else some (.d (F.f2d a))
  | .d2i, .d a => some (.i ((fpToInt64 F a false).setWidth 32))
  | .d2l, .d a => some (.l (fpToInt64 F a true))
  | .d2f, .d a =>
    if isNanD a then none
    else if isNanF (F.d2f a) then none
    else some (.f (F.d2f a))
  | _, _ => none

end

/-- The IEEE facts the folds rely on: comparison is comparison of the denoted
numbers and fails on not-a-number, an in-range conversion rounds toward zero, and
widening a float to a double keeps order, truncation and not-a-number. -/
structure Ieee (F : FloatOps) : Prop where
  ltD_iff : ∀ a b, F.ltD a b = true ↔
    isNanD a = false ∧ isNanD b = false ∧ doubleVal a < doubleVal b
  truncD_eq : ∀ v, isNanD v = false → -2 ^ 63 ≤ doubleVal v → doubleVal v < 2 ^ 63 →
    F.truncD v = truncate (doubleVal v)
  nan_f2d : ∀ a, isNanD (F.f2d a) = isNanF a
  ltD_f2d : ∀ a b, F.ltD (F.f2d a) (F.f2d b) = F.ltF a b
  truncD_f2d : ∀ a, F.truncD (F.f2d a) = F.truncF a
  f2d_two_pow_31 : F.f2d 0x4F000000 = 0x41E0000000000000
  f2d_neg_two_pow_31 : F.f2d 0xCF000000 = 0xC1E0000000000000
  f2d_two_pow_63 : F.f2d 0x5F000000 = 0x43E0000000000000
  f2d_neg_two_pow_63 : F.f2d 0xDF000000 = 0xC3E0000000000000

/-! ## Narrowing agrees with the run time -/

section Narrowing

variable {F : FloatOps} (hF : Ieee F) {v : BitVec 64} (hNan : isNanD v = false)
include hF hNan

/-- Against a constant, the comparison reads the value of the operand. -/
theorem ltD_const_iff {c : BitVec 64} (hc : isNanD c = false) :
    F.ltD v c = true ↔ doubleVal v < doubleVal c := by
  rw [hF.ltD_iff]
  simp [hNan, hc]

theorem const_ltD_iff {c : BitVec 64} (hc : isNanD c = false) :
    F.ltD c v = true ↔ doubleVal c < doubleVal v := by
  rw [hF.ltD_iff]
  simp [hNan, hc]

theorem ltD_two_pow_63_iff : F.ltD v 0x43E0000000000000 = true ↔ doubleVal v < 2 ^ 63 := by
  rw [ltD_const_iff hF hNan (by decide), doubleVal_two_pow_63]

theorem neg_two_pow_63_ltD_iff : F.ltD 0xC3E0000000000000 v = true ↔ -2 ^ 63 < doubleVal v := by
  rw [const_ltD_iff hF hNan (by decide), doubleVal_neg_two_pow_63]

theorem ltD_neg_two_pow_63_iff : F.ltD v 0xC3E0000000000000 = true ↔ doubleVal v < -2 ^ 63 := by
  rw [ltD_const_iff hF hNan (by decide), doubleVal_neg_two_pow_63]

theorem ltD_two_pow_31_iff : F.ltD v 0x41E0000000000000 = true ↔ doubleVal v < 2 ^ 31 := by
  rw [ltD_const_iff hF hNan (by decide), doubleVal_two_pow_31]

theorem ltD_neg_two_pow_31_iff : F.ltD v 0xC1E0000000000000 = true ↔ doubleVal v < -2 ^ 31 := by
  rw [ltD_const_iff hF hNan (by decide), doubleVal_neg_two_pow_31]

theorem intMax_ltD_iff : F.ltD 0x41DFFFFFFFC00000 v = true ↔ 2 ^ 31 - 1 < doubleVal v := by
  rw [const_ltD_iff hF hNan (by decide), doubleVal_intMax]

end Narrowing

/-- A test that decides a false proposition fails. -/
theorem eq_false_of_iff {b : Bool} {p : Prop} (h : b = true ↔ p) (hp : ¬ p) : b = false := by
  rw [Bool.eq_false_iff, ne_eq, h]
  exact hp

/-- The fold saturates to `long` as the run time does. -/
theorem fpToInt64_long {F : FloatOps} (hF : Ieee F) (v : BitVec 64) :
    fpToInt64 F v true = F.toInt64SatD v := by
  unfold fpToInt64 FloatOps.toInt64SatD FloatOps.saturate
  cases hNan : isNanD v with
  | true => simp
  | false =>
    have hHi := ltD_two_pow_63_iff hF hNan
    have hLo := neg_two_pow_63_ltD_iff hF hNan
    have hLo' := ltD_neg_two_pow_63_iff hF hNan
    have hTrunc := hF.truncD_eq v hNan
    generalize F.ltD v 0x43E0000000000000 = below at hHi ⊢
    generalize F.ltD 0xC3E0000000000000 v = above at hLo ⊢
    generalize F.ltD v 0xC3E0000000000000 = under at hLo' ⊢
    rcases lt_or_ge (doubleVal v) (2 ^ 63) with hA | hA
    · rcases lt_trichotomy (doubleVal v) (-2 ^ 63) with hB | hB | hB
      · simp [hHi.mpr hA, eq_false_of_iff hLo (not_lt.mpr hB.le), hLo'.mpr hB]
      · -- Exactly the lower bound: the run time truncates it to itself.
        have hSelf : F.truncD v = -2 ^ 63 := by
          rw [hTrunc hB.ge hA, hB]
          have h := truncate_intCast (-2 ^ 63)
          push_cast at h
          exact h
        have hMin : BitVec.ofInt 64 (-2 ^ 63) = BitVec.intMin 64 := by decide
        rw [hSelf, hMin]
        simp [hHi.mpr hA, eq_false_of_iff hLo hB.not_gt, eq_false_of_iff hLo' hB.not_lt]
      · simp [hHi.mpr hA, hLo.mpr hB, eq_false_of_iff hLo' (not_lt.mpr hB.le)]
    · simp [eq_false_of_iff hHi (not_lt.mpr hA)]

/-- Narrowing an integer taken modulo `2^64` takes it modulo `2^32`. -/
theorem setWidth_ofInt (i : Int) : (BitVec.ofInt 64 i).setWidth 32 = BitVec.ofInt 32 i := by
  apply BitVec.eq_of_toNat_eq
  rw [BitVec.toNat_setWidth, BitVec.toNat_ofInt, BitVec.toNat_ofInt]
  omega

/-- The fold saturates to `int` as the run time does. -/
theorem fpToInt64_int {F : FloatOps} (hF : Ieee F) (v : BitVec 64) :
    (fpToInt64 F v false).setWidth 32 = F.toInt32SatD v := by
  unfold fpToInt64 FloatOps.toInt32SatD FloatOps.saturate
  cases hNan : isNanD v with
  | true => simp
  | false =>
    have hHi := ltD_two_pow_63_iff hF hNan
    have hLo := neg_two_pow_63_ltD_iff hF hNan
    have hHi' := ltD_two_pow_31_iff hF hNan
    have hLo' := ltD_neg_two_pow_31_iff hF hNan
    have hMax := intMax_ltD_iff hF hNan
    have hTrunc := hF.truncD_eq v hNan
    have hMaxEq : ((BitVec.intMax 32).signExtend 64).setWidth 32 = BitVec.intMax 32 := by
      decide
    have hMinEq : ((BitVec.intMin 32).signExtend 64).setWidth 32 = BitVec.intMin 32 := by
      decide
    generalize F.ltD v 0x43E0000000000000 = below at hHi ⊢
    generalize F.ltD 0xC3E0000000000000 v = above at hLo ⊢
    generalize F.ltD v 0x41E0000000000000 = below' at hHi' ⊢
    generalize F.ltD v 0xC1E0000000000000 = under at hLo' ⊢
    generalize F.ltD 0x41DFFFFFFFC00000 v = past at hMax ⊢
    rcases lt_or_ge (doubleVal v) (2 ^ 63) with hA | hA
    · rcases lt_or_ge (-2 ^ 63) (doubleVal v) with hB | hB
      · rcases lt_or_ge (2 ^ 31 - 1) (doubleVal v) with hC | hC
        · rcases lt_or_ge (doubleVal v) (2 ^ 31) with hD | hD
          · -- Between the largest `int` and the next integer: truncation lands on it.
            have hLast : F.truncD v = 2 ^ 31 - 1 := by
              rw [hTrunc hB.le hA]
              apply truncate_eq_of_between (by norm_num)
              all_goals
                push_cast
                linarith
            have hInt : BitVec.ofInt 32 (2 ^ 31 - 1) = BitVec.intMax 32 := by decide
            rw [hLast, hInt]
            simp [hHi.mpr hA, hLo.mpr hB, hMax.mpr hC, hHi'.mpr hD, hMaxEq,
              eq_false_of_iff hLo' (by linarith)]
          · simp [hHi.mpr hA, hLo.mpr hB, hMax.mpr hC, hMaxEq, eq_false_of_iff hHi' (not_lt.mpr hD)]
        · have hD : doubleVal v < 2 ^ 31 := by linarith
          have hNot := eq_false_of_iff hMax (not_lt.mpr hC)
          rcases lt_or_ge (doubleVal v) (-2 ^ 31) with hE | hE
          · simp [hHi.mpr hA, hLo.mpr hB, hNot, hHi'.mpr hD, hLo'.mpr hE, hMinEq]
          · simp [hHi.mpr hA, hLo.mpr hB, hNot, hHi'.mpr hD,
              eq_false_of_iff hLo' (not_lt.mpr hE), setWidth_ofInt]
      · have hD : doubleVal v < 2 ^ 31 := by linarith
        have hE : doubleVal v < -2 ^ 31 := by linarith
        simp [hHi.mpr hA, eq_false_of_iff hLo (not_lt.mpr hB), hHi'.mpr hD, hLo'.mpr hE, hMinEq]
    · have hNot := eq_false_of_iff hHi' (by linarith)
      simp [eq_false_of_iff hHi (not_lt.mpr hA), hNot, hMaxEq]

theorem toInt32SatF_eq {F : FloatOps} (hF : Ieee F) (a : BitVec 32) :
    F.toInt32SatF a = F.toInt32SatD (F.f2d a) := by
  unfold FloatOps.toInt32SatF FloatOps.toInt32SatD
  rw [hF.nan_f2d, hF.truncD_f2d, ← hF.f2d_two_pow_31, ← hF.f2d_neg_two_pow_31, hF.ltD_f2d,
    hF.ltD_f2d]

theorem toInt64SatF_eq {F : FloatOps} (hF : Ieee F) (a : BitVec 32) :
    F.toInt64SatF a = F.toInt64SatD (F.f2d a) := by
  unfold FloatOps.toInt64SatF FloatOps.toInt64SatD
  rw [hF.nan_f2d, hF.truncD_f2d, ← hF.f2d_two_pow_63, ← hF.f2d_neg_two_pow_63, hF.ltD_f2d,
    hF.ltD_f2d]

/-! ## Folds agree with the run time -/

theorem and_char_mask (a : BitVec 32) : a &&& 0xFFFF = (a.setWidth 16).setWidth 32 := by
  ext i hi
  have hMask : (0xFFFF : BitVec 32)[i] = decide (i < 16) := by
    rw [← BitVec.getLsbD_eq_getElem, show (0xFFFF : BitVec 32) = BitVec.ofNat 32 (2 ^ 16 - 1)
      from rfl, BitVec.getLsbD_ofNat, Nat.testBit_two_pow_sub_one]
    simp [hi]
  simp only [BitVec.getElem_and, hMask, BitVec.getElem_setWidth, BitVec.getLsbD_setWidth,
    BitVec.getLsbD_eq_getElem hi]
  exact Bool.and_comm _ _

variable {k : NodeKind}

/-- A one-operand fold is the run-time operation. -/
theorem evalUnaryOp_sound {F : FloatOps} (hF : Ieee F) {a c : ConstVal}
    (h : evalUnaryOp F k a = some c) : unaryOp F k a.toVal = some c.toVal := by
  unfold evalUnaryOp at h
  split at h
  all_goals simp only [Option.ite_none_left_eq_some, Option.some.injEq, reduceCtorEq] at h
  case h_17 =>
    obtain ⟨-, rfl⟩ := h
    rfl
  case h_20 =>
    obtain ⟨-, -, rfl⟩ := h
    rfl
  all_goals
    subst h
    first
      | rfl
      | simp only [ConstVal.toVal, unaryOp, fpToInt64_int hF, fpToInt64_long hF,
          toInt32SatF_eq hF, toInt64SatF_eq hF, and_char_mask, ofBool, decide_eq_true_eq]

/-- The integer folds compute what the run time computes. -/
theorem foldIntBin_sound {F : FloatOps} {a b r : BitVec 32} (h : foldIntBin k a b = some r) :
    binaryOp F k (.int a) (.int b) = some (.int r) := by
  unfold foldIntBin at h
  split at h
  all_goals simp only [Option.ite_none_left_eq_some, Option.some.injEq, reduceCtorEq] at h
  case h_10 | h_11 =>
    obtain ⟨hNonzero, rfl⟩ := h
    simp only [binaryOp, if_neg hNonzero]
    rfl
  all_goals
    subst h
    first
      | rfl
      | simp only [binaryOp, wrapAdd32_eq, wrapSub32_eq, wrapMul32_eq, cmpKernel, threeWay,
          ofBool, decide_eq_true_eq, gt_iff_lt, ge_iff_le]

/-- The long folds compute what the run time computes; the comparison is an `int`. -/
theorem foldLongBin_sound {F : FloatOps} {a b r : BitVec 64} {v : Val}
    (h : foldLongBin k a b = some r) (hv : binaryOp F k (.long a) (.long b) = some v) :
    v = (if k = .cmpL then ConstVal.i (r.setWidth 32) else ConstVal.l r).toVal := by
  unfold foldLongBin at h
  split at h
  all_goals simp only [Option.ite_none_left_eq_some, Option.some.injEq, reduceCtorEq] at h
  case h_10 | h_11 =>
    obtain ⟨hNonzero, rfl⟩ := h
    simp only [binaryOp, if_neg hNonzero, Option.some.injEq] at hv
    exact hv.symm
  case h_12 =>
    subst h
    simp only [binaryOp, cmpKernel, Option.some.injEq] at hv
    rw [if_pos rfl, ← hv, setWidth_signExtend]
    simp only [ConstVal.toVal, threeWay, decide_eq_true_eq]
  all_goals
    subst h
    simp only [binaryOp, Option.some.injEq, reduceCtorEq] at hv
  all_goals exact hv.symm

theorem eq_of_exactF {r s : BitVec 32} (h : exactF r = some s) : s = r := by
  unfold exactF at h
  split at h <;> cases h
  rfl

theorem eq_of_exactD {r s : BitVec 64} (h : exactD r = some s) : s = r := by
  unfold exactD at h
  split at h <;> cases h
  rfl

/-- A folded float operation is the host operation the run time performs. -/
theorem foldFloatBin_sound {F : FloatOps} {a b r : BitVec 32} (h : foldFloatBin F k a b = some r) :
    binaryOp F k (.float a) (.float b) = some (.float r) := by
  unfold foldFloatBin at h
  rw [Option.ite_none_left_eq_some] at h
  obtain ⟨-, h⟩ := h
  split at h
  case h_5 =>
    rw [Option.ite_none_left_eq_some] at h
    rw [eq_of_exactF h.2]
    rfl
  case h_6 => cases h
  all_goals
    rw [eq_of_exactF h]
    rfl

theorem foldDoubleBin_sound {F : FloatOps} {a b r : BitVec 64}
    (h : foldDoubleBin F k a b = some r) :
    binaryOp F k (.double a) (.double b) = some (.double r) := by
  unfold foldDoubleBin at h
  rw [Option.ite_none_left_eq_some] at h
  obtain ⟨-, h⟩ := h
  split at h
  case h_5 =>
    rw [Option.ite_none_left_eq_some] at h
    rw [eq_of_exactD h.2]
    rfl
  case h_6 => cases h
  all_goals
    rw [eq_of_exactD h]
    rfl

theorem foldCmp_double (F : FloatOps) (nan : BitVec 32) (a b : BitVec 64) :
    foldCmp F nan a b = F.cmpD nan a b := rfl

/-- Comparing two floats after widening them compares the floats. -/
theorem foldCmp_float {F : FloatOps} (hF : Ieee F) (nan a b : BitVec 32) :
    foldCmp F nan (F.f2d a) (F.f2d b) = F.cmpF nan a b := by
  unfold foldCmp FloatOps.cmpF threeWay
  rw [hF.nan_f2d, hF.nan_f2d, hF.ltD_f2d, hF.ltD_f2d]

/-- A two-operand fold is the run-time operation. -/
theorem evalBinOp_sound {F : FloatOps} (hF : Ieee F) {a b c : ConstVal} {v : Val}
    (h : evalBinOp F k a b = some c) (hv : binaryOp F k a.toVal b.toVal = some v) :
    v = c.toVal := by
  unfold evalBinOp at h
  split at h
  · -- Two ints.
    obtain ⟨r, hFold, rfl⟩ := Option.map_eq_some_iff.mp h
    have hRun := foldIntBin_sound (F := F) hFold
    exact Option.some.inj (hv.symm.trans hRun)
  · -- Two longs.
    obtain ⟨r, hFold, rfl⟩ := Option.map_eq_some_iff.mp h
    exact foldLongBin_sound hFold hv
  · -- Two floats: arithmetic, or a comparison through doubles.
    split at h
    · rename_i hFold
      cases h
      exact Option.some.inj (hv.symm.trans (foldFloatBin_sound hFold))
    simp only [foldCmp_float hF] at h
    split at h
    · rename_i hKind
      cases h
      subst hKind
      exact (Option.some.inj hv).symm
    · split at h <;> cases h
      rename_i hKind
      subst hKind
      exact (Option.some.inj hv).symm
  · -- Two doubles.
    split at h
    · rename_i hFold
      cases h
      exact Option.some.inj (hv.symm.trans (foldDoubleBin_sound hFold))
    simp only [foldCmp_double] at h
    split at h
    · rename_i hKind
      cases h
      subst hKind
      exact (Option.some.inj hv).symm
    · split at h <;> cases h
      rename_i hKind
      subst hKind
      exact (Option.some.inj hv).symm
  · cases h

end B2Compiler.Passes
