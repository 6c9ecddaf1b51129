import Mathlib.Data.Int.Log
import B2Compiler.Lib.Ieee
import B2Compiler.Ts.Objects

/-!
# Small integers in the arithmetic handlers

A handler first tries its operands as 32-bit integers; what its fast lane leaves must be
what the operation on doubles would have given.  Multiplication forgets that a zero can be
negative.
-/

namespace B2Compiler.Ts

open Lib

/-! ## Arithmetic on doubles -/

namespace Double

def value : Double → ℚ
  | .finite q => q
  | _ => 0

def signbit : Double → Bool
  | .infinity negative => negative
  | .negativeZero => true
  | .finite q => q < 0
  | .nan => false

def zero (negative : Bool) : Double := if negative then .negativeZero else .finite 0

/-- The nearest integer, of two the even one. -/
def nearest (q : ℚ) : ℤ :=
  if q - ⌊q⌋ < 1 / 2 ∨ q - ⌊q⌋ = 1 / 2 ∧ ⌊q⌋ % 2 = 0 then ⌊q⌋ else ⌊q⌋ + 1

/-- The double next to a number; a zero gets the sign it is given. -/
def rounded (negative : Bool) (q : ℚ) : Double :=
  let ulp : ℚ := 2 ^ max (Int.log 2 |q| - 52) (-1074)
  let v := nearest (q / ulp) * ulp
  if v = 0 then zero negative else if 2 ^ 1024 ≤ |v| then .infinity (q < 0) else .finite v

def neg : Double → Double
  | .nan => .nan
  | .infinity negative => .infinity !negative
  | .negativeZero => .finite 0
  | .finite q => if q = 0 then .negativeZero else .finite (-q)

def add : Double → Double → Double
  | .nan, _ | _, .nan => .nan
  | .infinity a, .infinity b => if a = b then .infinity a else .nan
  | .infinity a, _ | _, .infinity a => .infinity a
  | .negativeZero, d | d, .negativeZero => d
  | .finite p, .finite q => rounded false (p + q)

def sub (x y : Double) : Double := x.add y.neg

def mul (x y : Double) : Double :=
  let negative := x.signbit != y.signbit
  match x, y with
  | .nan, _ | _, .nan => .nan
  | .infinity _, .infinity _ => .infinity negative
  | .infinity _, d | d, .infinity _ => if d.value = 0 then .nan else .infinity negative
  | _, _ => rounded negative (x.value * y.value)

def fmod (x y : Double) : Double :=
  match x, y with
  | .nan, _ | _, .nan | .infinity _, _ => .nan
  | _, .infinity _ => x
  | _, _ =>
    if y.value = 0 then .nan
    else
      let m := x.value - y.value * truncate (x.value / y.value)
      if m = 0 then zero x.signbit else .finite m

def lt : Double → Double → Bool
  | .nan, _ | _, .nan => false
  | .infinity a, .infinity b => a && !b
  | .infinity a, _ => a
  | _, .infinity b => !b
  | x, y => x.value < y.value

def eq : Double → Double → Bool
  | .nan, _ | _, .nan => false
  | .infinity a, .infinity b => a = b
  | .infinity _, _ | _, .infinity _ => false
  | x, y => x.value = y.value

end Double

open Double

/-! ## The operations on values -/

def kSmiMin : Int := -2 ^ 31

def kSmiMax : Int := 2 ^ 31 - 1

/-- Integral, in range and not the negative zero; `tsSmiOrNumber` makes the same tests. -/
def normalizeNumber : Double → Value
  | .finite q =>
    if (kSmiMin ≤ q ∧ q ≤ kSmiMax) ∧ (truncate q : ℚ) = q then .smi (truncate q)
    else .heapNumber (.finite q)
  | d => .heapNumber d

abbrev tsSmiOrNumber : Double → Value := normalizeNumber

def toInt32 : Double → BitVec 32
  | .nan | .infinity _ => 0
  | d =>
    let m := truncate d.value % 2 ^ 32
    .ofInt 32 (if 2 ^ 31 ≤ m then m - 2 ^ 32 else m)

/-- The opcodes with a lane for small integers. -/
inductive SmiOp where
  | add | sub | mul | mod | bitAnd | bitOr | bitXor | shl | shr | uShr | bitNot | neg | inc | dec
  | lt | le | gt | ge | strictEq
  deriving DecidableEq

/-- On numbers, which are their own primitives. -/
def addValues (l r : Value) : Value := normalizeNumber (l.asDouble.add r.asDouble)

def arithValues (l r : Value) (op : SmiOp) : Value :=
  match op with
  | .sub => normalizeNumber (l.asDouble.sub r.asDouble)
  | .mul => normalizeNumber (l.asDouble.mul r.asDouble)
  | .mod => normalizeNumber (l.asDouble.fmod r.asDouble)
  | _ => .undefined

def bitwiseValues (l r : Value) (op : SmiOp) : Value :=
  let x := toInt32 l.asDouble
  let y := toInt32 r.asDouble
  let shift := (y &&& 31).toNat
  match op with
  | .bitAnd => normalizeNumber (.finite (x &&& y).toInt)
  | .bitOr => normalizeNumber (.finite (x ||| y).toInt)
  | .bitXor => normalizeNumber (.finite (x ^^^ y).toInt)
  | .shl => normalizeNumber (.finite (x <<< shift).toInt)
  | .shr => normalizeNumber (.finite (x.sshiftRight shift).toInt)
  | .uShr => normalizeNumber (.finite (x >>> shift).toNat)
  | _ => .undefined

inductive Relational where
  | less | equal | greater | unordered
  deriving DecidableEq

def relationalCompare (l r : Value) : Relational :=
  let x := l.asDouble
  let y := r.asDouble
  if x = .nan ∨ y = .nan then .unordered
  else if x.lt y then .less
  else if y.lt x then .greater
  else .equal

def strictEquals (l r : Value) : Bool := l.asDouble.eq r.asDouble

/-- What the handler does to numbers where it has no lane. -/
def semanticPath (op : SmiOp) (l r : Value) : Value :=
  match op with
  | .add => addValues l r
  | .sub | .mul | .mod => arithValues l r op
  | .bitAnd | .bitOr | .bitXor | .shl | .shr | .uShr => bitwiseValues l r op
  | .bitNot => normalizeNumber (.finite (toInt32 (.finite (~~~toInt32 l.asDouble).toInt)).toInt)
  | .neg => normalizeNumber l.asDouble.neg
  | .inc => normalizeNumber (l.asDouble.add (.finite 1))
  | .dec => normalizeNumber (l.asDouble.sub (.finite 1))
  | .lt => .boolean (relationalCompare l r = .less)
  | .le => .boolean (relationalCompare l r = .less ∨ relationalCompare l r = .equal)
  | .gt => .boolean (relationalCompare l r = .greater)
  | .ge => .boolean (relationalCompare l r = .greater ∨ relationalCompare l r = .equal)
  | .strictEq => .boolean (strictEquals l r)

def smi (x : BitVec 32) : Value := .smi x.toInt

def InSmiRange (z : Int) : Prop := kSmiMin ≤ z ∧ z ≤ kSmiMax

instance (z : Int) : Decidable (InSmiRange z) := inferInstanceAs (Decidable (_ ∧ _))

/-- A 64-bit result, or the lane for two numbers where it is no Smi. -/
def guarded (z : Int) (numbers : Double) : Value :=
  if InSmiRange z then .smi z else tsSmiOrNumber numbers

/-- What the handler leaves in its register for the Smis `l` and `r`.  The remainder tries
the lane for numbers first. -/
def fastLane (op : SmiOp) (l r : BitVec 32) : Value :=
  let x : Double := .finite l.toInt
  let y : Double := .finite r.toInt
  let shift := (r &&& 31).toNat
  match op with
  | .add => guarded (l.toInt + r.toInt) (x.add y)
  | .sub => guarded (l.toInt - r.toInt) (x.sub y)
  | .mul => guarded (l.toInt * r.toInt) (x.mul y)
  | .mod => tsSmiOrNumber (x.fmod y)
  | .bitAnd => smi (l &&& r)
  | .bitOr => smi (l ||| r)
  | .bitXor => smi (l ^^^ r)
  | .shl => smi (l <<< shift)
  | .shr => smi (l.sshiftRight shift)
  | .uShr =>
    let u := l >>> shift
    if u.toNat ≤ kSmiMax then smi u else .heapNumber (.finite u.toNat)
  | .bitNot => smi (~~~l)
  | .neg =>
    if l.toInt = 0 then .heapNumber .negativeZero
    else if l.toInt = kSmiMin then .heapNumber x.neg
    else .smi (-l.toInt)
  | .inc =>
    if l.toInt = kSmiMax then .heapNumber (.add (.finite kSmiMax) (.finite 1))
    else .smi (l.toInt + 1)
  | .dec =>
    if l.toInt = kSmiMin then .heapNumber (.sub (.finite kSmiMin) (.finite 1))
    else .smi (l.toInt - 1)
  | .lt => .boolean (l.toInt < r.toInt)
  | .le => .boolean (l.toInt ≤ r.toInt)
  | .gt => .boolean (l.toInt > r.toInt)
  | .ge => .boolean (l.toInt ≥ r.toInt)
  | .strictEq => .boolean (l.toInt = r.toInt)

/-- An integer as a value where the language leaves no choice: a negative zero is a heap
number, and a number in range a Smi. -/
def exactNumber (z : Int) (negative : Bool) : Option Value :=
  if z = 0 ∧ negative then some (.heapNumber .negativeZero)
  else if InSmiRange z then some (.smi z) else none

def exactResult (op : SmiOp) (l r : BitVec 32) : Option Value :=
  let x := l.toInt
  let y := r.toInt
  let shift := (r &&& 31).toNat
  match op with
  | .add => exactNumber (x + y) false
  | .sub => exactNumber (x - y) false
  | .mul => exactNumber (x * y) ((x < 0) != (y < 0))
  | .mod => if y = 0 then some (.heapNumber .nan) else exactNumber (x.tmod y) (x < 0)
  | .bitAnd => exactNumber (l &&& r).toInt false
  | .bitOr => exactNumber (l ||| r).toInt false
  | .bitXor => exactNumber (l ^^^ r).toInt false
  | .shl => exactNumber (l <<< shift).toInt false
  | .shr => exactNumber (x / 2 ^ shift) false
  | .uShr => exactNumber (l.toNat / 2 ^ shift : Nat) false
  | .bitNot => exactNumber (-x - 1) false
  | .neg => exactNumber (-x) true
  | .inc => exactNumber (x + 1) false
  | .dec => exactNumber (x - 1) false
  | .lt => some (.boolean (x < y))
  | .le => some (.boolean (x ≤ y))
  | .gt => some (.boolean (y < x))
  | .ge => some (.boolean (y ≤ x))
  | .strictEq => some (.boolean (x = y))

/-! ## Rounding integers -/

variable {z : ℤ} {b : Bool} {v : Value}

theorem nearest_intCast (z : ℤ) : nearest (z : ℚ) = z := by
  simp [nearest]

theorem log_intCast_le (hz : |z| < 2 ^ 53) : Int.log 2 |(z : ℚ)| ≤ 52 := by
  rcases eq_or_ne z 0 with rfl | hNe
  · simp
  · have hPos : (0 : ℚ) < |(z : ℚ)| := by positivity
    have hLt : |(z : ℚ)| < (2 : ℕ) ^ (53 : ℤ) := by exact_mod_cast hz
    have := (Int.lt_zpow_iff_log_lt (by norm_num) hPos).mp hLt
    omega

theorem rounded_intCast (b : Bool) (hz : |z| < 2 ^ 53) :
    rounded b z = if z = 0 then zero b else .finite z := by
  obtain ⟨n, hn⟩ : ∃ n : ℕ, max (Int.log 2 |(z : ℚ)| - 52) (-1074) = -(n : ℤ) :=
    ⟨(-max (Int.log 2 |(z : ℚ)| - 52) (-1074)).toNat, by have := log_intCast_le hz; omega⟩
  have hScaled : (z : ℚ) / 2 ^ (-(n : ℤ)) = (z * 2 ^ n : ℤ) := by
    push_cast
    rw [zpow_neg, div_inv_eq_mul, zpow_natCast]
  have hBack : ((z * 2 ^ n : ℤ) : ℚ) * 2 ^ (-(n : ℤ)) = z := by
    push_cast
    rw [zpow_neg, zpow_natCast, mul_assoc, mul_inv_cancel₀ (by positivity), mul_one]
  have hSmall : ¬ (2 : ℚ) ^ 1024 ≤ |(z : ℚ)| := by
    have hLt : |(z : ℚ)| < 2 ^ 53 := by exact_mod_cast hz
    exact not_le.mpr (hLt.trans (by gcongr <;> norm_num))
  simp only [rounded, hn, hScaled, nearest_intCast, hBack, if_neg hSmall, Int.cast_eq_zero]

theorem normalizeNumber_intCast (z : ℤ) :
    normalizeNumber (.finite z) = if InSmiRange z then .smi z else .heapNumber (.finite z) := by
  simp only [normalizeNumber, truncate_intCast, Int.cast_le, and_true]
  rfl

theorem normalizeNumber_rounded (h : exactNumber z b = some v) :
    normalizeNumber (rounded b z) = v := by
  have hRange : InSmiRange z := by
    unfold exactNumber at h
    split at h
    case isTrue hZero => simp only [hZero.1, InSmiRange, kSmiMin, kSmiMax]; decide
    case isFalse =>
      split at h
      · assumption
      · cases h
  have hSmall : |z| < 2 ^ 53 := by
    simp only [InSmiRange, kSmiMin, kSmiMax] at hRange
    rw [abs_lt]
    omega
  rw [rounded_intCast b hSmall]
  by_cases hz : z = 0
  · subst hz
    cases b <;> cases h
    · exact (normalizeNumber_intCast 0).trans (if_pos (by decide))
    · rfl
  · rw [exactNumber, if_neg (by tauto), if_pos hRange] at h
    cases h
    rw [if_neg hz, normalizeNumber_intCast, if_pos hRange]

/-- A lane with a guard agrees with the doubles unless it loses the sign of a zero. -/
theorem guarded_eq_iff (z : ℤ) (b : Bool) :
    guarded z (rounded b z) = normalizeNumber (rounded b z) ↔ ¬ (z = 0 ∧ b) := by
  by_cases hRange : InSmiRange z
  · rw [guarded, if_pos hRange]
    by_cases h : z = 0 ∧ b
    · rw [normalizeNumber_rounded (if_pos h)]
      simp [h]
    · rw [normalizeNumber_rounded (by rw [exactNumber, if_neg h, if_pos hRange])]
      simp [h]
  · rw [guarded, if_neg hRange]
    refine iff_of_true rfl ?_
    rintro ⟨rfl, -⟩
    exact hRange (by decide)

theorem toInt_bounds (x : BitVec 32) : -2 ^ 31 ≤ x.toInt ∧ x.toInt < 2 ^ 31 := by
  have hLo := x.le_toInt
  have hHi := x.toInt_lt
  omega

theorem inSmiRange_toInt (x : BitVec 32) : InSmiRange x.toInt := by
  have := toInt_bounds x
  simp only [InSmiRange, kSmiMin, kSmiMax]
  omega

theorem normalizeNumber_toInt (x : BitVec 32) : normalizeNumber (.finite x.toInt) = smi x := by
  rw [normalizeNumber_intCast, if_pos (inSmiRange_toInt x), smi]

theorem toInt32_toInt (x : BitVec 32) : toInt32 (.finite x.toInt) = x := by
  have hx := toInt_bounds x
  simp only [toInt32, value, truncate_intCast]
  rw [show (if 2 ^ 31 ≤ x.toInt % 2 ^ 32 then x.toInt % 2 ^ 32 - 2 ^ 32 else x.toInt % 2 ^ 32)
    = x.toInt by split <;> omega]
  exact BitVec.ofInt_toInt

@[simp]
theorem toInt32_smi (x : BitVec 32) : toInt32 (smi x).asDouble = x := toInt32_toInt x

/-- A difference of small integers is the rounded difference. -/
theorem sub_intCast (x : BitVec 32) (k : ℤ) (hk : |k| ≤ 2 ^ 31) :
    Double.sub (.finite x.toInt) (.finite k) = rounded false ((x.toInt - k : ℤ) : ℚ) := by
  have hx := toInt_bounds x
  rw [abs_le] at hk
  by_cases h : k = 0
  · subst h
    rw [sub_zero, rounded_intCast _ (by rw [abs_lt]; omega)]
    by_cases hx : x.toInt = 0 <;> simp [Double.sub, neg, Double.add, hx, zero]
  · rw [Double.sub, neg, if_neg (by exact_mod_cast h), Double.add, Int.cast_sub, sub_eq_add_neg]

theorem truncate_neg (q : ℚ) : truncate (-q) = -truncate q := by
  rcases lt_trichotomy q 0 with h | rfl | h
  · rw [truncate, truncate, if_pos (by linarith), if_neg (by linarith), Int.floor_neg]
  · simp [truncate]
  · rw [truncate, truncate, if_neg (by linarith), if_pos h.le, Int.ceil_neg]

theorem truncate_div (x y : ℤ) : truncate ((x : ℚ) / y) = x.tdiv y := by
  have hNat (m n : ℕ) : truncate ((m : ℚ) / n) = (m : ℤ).tdiv n := by
    rw [truncate, if_pos (by positivity)]
    exact Rat.floor_intCast_div_natCast m n
  obtain ⟨m, rfl | rfl⟩ := x.eq_nat_or_neg <;> obtain ⟨n, rfl | rfl⟩ := y.eq_nat_or_neg <;>
    simp [neg_div, div_neg, truncate_neg, hNat, Int.tdiv_neg, Int.neg_tdiv]

/-- The remainder of small integers, with the sign of the dividend. -/
theorem fmod_intCast (x y : ℤ) (hy : y ≠ 0) : Double.fmod (.finite x) (.finite y) =
      if x.tmod y = 0 then zero (x < 0) else .finite (x.tmod y) := by
  have hMod : (x : ℚ) - y * (x.tdiv y : ℤ) = (x.tmod y : ℤ) := by
    rw [Int.tmod_def]
    push_cast
    ring
  simp [Double.fmod, value, hy, truncate_div, hMod, signbit]

/-! ## The lanes against the doubles -/

theorem finite_intCast (hz : |z| < 2 ^ 53) : Double.finite z = rounded false z := by
  rw [rounded_intCast false hz]
  split
  case isTrue h => rw [h]; rfl
  case isFalse => rfl

theorem small_of_range {k : ℤ} (h : -2 ^ 32 ≤ k ∧ k ≤ 2 ^ 32) : |k| < 2 ^ 53 := by
  rw [abs_lt]
  omega

/-- An operation with an integer result rounds that result. -/
def Rounds (op : SmiOp) (l r : BitVec 32) (z : ℤ) (b : Bool) : Prop :=
  semanticPath op (smi l) (smi r) = normalizeNumber (rounded b z)

variable (l r : BitVec 32)

theorem rounds_add : Rounds .add l r (l.toInt + r.toInt) false := by
  rw [Rounds, Int.cast_add]
  rfl

theorem rounds_sub : Rounds .sub l r (l.toInt - r.toInt) false := by
  have hr := toInt_bounds r
  exact congrArg normalizeNumber (sub_intCast l r.toInt (by rw [abs_le]; omega))

theorem mul_intCast (x y : ℤ) : Double.mul (.finite x) (.finite y) =
    rounded ((x < 0) != (y < 0)) ((x * y : ℤ) : ℚ) := by
  rw [Int.cast_mul]
  simp [Double.mul, signbit, value]

theorem rounds_mul : Rounds .mul l r (l.toInt * r.toInt) ((l.toInt < 0) != (r.toInt < 0)) :=
  congrArg normalizeNumber (mul_intCast l.toInt r.toInt)

theorem rounds_mod (h : r.toInt ≠ 0) : Rounds .mod l r (l.toInt.tmod r.toInt) (l.toInt < 0) := by
  have hl := toInt_bounds l
  have hAbs := Int.natAbs_tmod l.toInt r.toInt
  have hLe := Nat.mod_le l.toInt.natAbs r.toInt.natAbs
  rw [Rounds, rounded_intCast _ (small_of_range (by omega)), ← fmod_intCast _ _ h]
  rfl

theorem rounds_bits {op : SmiOp} {x : BitVec 32}
    (h : semanticPath op (smi l) (smi r) = normalizeNumber (.finite x.toInt)) :
    Rounds op l r x.toInt false := by
  have hx := toInt_bounds x
  rw [Rounds, h, finite_intCast (small_of_range (by omega))]

theorem rounds_shr : Rounds .shr l r (l.toInt / 2 ^ (r &&& 31).toNat) false := by
  rw [show l.toInt / 2 ^ (r &&& 31).toNat = (l.sshiftRight (r &&& 31).toNat).toInt by
    rw [BitVec.toInt_sshiftRight, Int.shiftRight_eq_div_pow]; norm_cast]
  exact rounds_bits l r (by simp only [semanticPath, bitwiseValues, toInt32_smi])

theorem rounds_uShr : Rounds .uShr l r (l.toNat / 2 ^ (r &&& 31).toNat : ℕ) false := by
  have hu := (l >>> (r &&& 31).toNat).isLt
  rw [← Nat.shiftRight_eq_div_pow, ← BitVec.toNat_ushiftRight, Rounds,
    ← finite_intCast (small_of_range (by omega))]
  simp only [semanticPath, bitwiseValues, toInt32_smi, Int.cast_natCast]

theorem rounds_bitNot : Rounds .bitNot l r (-l.toInt - 1) false := by
  have hNot : (~~~l).toInt = -l.toInt - 1 := by
    have := l.isLt
    rw [BitVec.toInt_not, BitVec.toInt_eq_toNat_bmod]
    simp only [Int.bmod_def]
    split <;> split <;> omega
  rw [← hNot]
  exact rounds_bits l r (by simp only [semanticPath, toInt32_smi, toInt32_toInt])

theorem rounds_neg : Rounds .neg l r (-l.toInt) true := by
  have hl := toInt_bounds l
  rw [Rounds, rounded_intCast _ (small_of_range (by omega))]
  simp [semanticPath, smi, Value.asDouble, neg, zero]

theorem rounds_inc : Rounds .inc l r (l.toInt + 1) false := by
  rw [Rounds, Int.cast_add]
  rfl

theorem rounds_dec : Rounds .dec l r (l.toInt - 1) false :=
  congrArg normalizeNumber (sub_intCast l 1 (by decide))

theorem relationalCompare_smi : relationalCompare (smi l) (smi r) =
    if l.toInt < r.toInt then .less else if r.toInt < l.toInt then .greater else .equal := by
  simp [relationalCompare, smi, Value.asDouble, lt, value]

/-- The operation on doubles gives the integer result. -/
theorem semanticPath_exact (op : SmiOp) (h : exactResult op l r = some v) :
    semanticPath op (smi l) (smi r) = v := by
  have hBits {op : SmiOp} {x : BitVec 32} (hx : exactNumber x.toInt false = some v)
      (hOp : semanticPath op (smi l) (smi r) = normalizeNumber (.finite x.toInt)) :
      semanticPath op (smi l) (smi r) = v :=
    (rounds_bits l r hOp).trans (normalizeNumber_rounded hx)
  cases op
  case add => exact (rounds_add l r).trans (normalizeNumber_rounded h)
  case sub => exact (rounds_sub l r).trans (normalizeNumber_rounded h)
  case mul => exact (rounds_mul l r).trans (normalizeNumber_rounded h)
  case mod =>
    rw [exactResult] at h
    split at h
    case isTrue hy =>
      cases h
      simp [semanticPath, arithValues, smi, Value.asDouble, Double.fmod, value, hy, normalizeNumber]
    case isFalse hy => exact (rounds_mod l r hy).trans (normalizeNumber_rounded h)
  case shr => exact (rounds_shr l r).trans (normalizeNumber_rounded h)
  case uShr => exact (rounds_uShr l r).trans (normalizeNumber_rounded h)
  case bitNot => exact (rounds_bitNot l r).trans (normalizeNumber_rounded h)
  case neg => exact (rounds_neg l r).trans (normalizeNumber_rounded h)
  case inc => exact (rounds_inc l r).trans (normalizeNumber_rounded h)
  case dec => exact (rounds_dec l r).trans (normalizeNumber_rounded h)
  case bitAnd | bitOr | bitXor | shl =>
    exact hBits h (by simp only [semanticPath, bitwiseValues, toInt32_smi])
  case strictEq =>
    cases h
    simp [semanticPath, strictEquals, smi, Value.asDouble, Double.eq, value]
  case lt | le | gt | ge =>
    cases h
    simp only [semanticPath, relationalCompare_smi]
    grind

theorem guarded_eq_semanticPath_iff {op : SmiOp} {d : Double} (h : Rounds op l r z b)
    (hd : d = rounded b z) : guarded z d = semanticPath op (smi l) (smi r) ↔ ¬ (z = 0 ∧ b) := by
  rw [h, hd, guarded_eq_iff]

theorem smi_eq_semanticPath {op : SmiOp} (h : Rounds op l r z b) (hz : InSmiRange z)
    (hb : ¬ (z = 0 ∧ b)) : .smi z = semanticPath op (smi l) (smi r) :=
  (normalizeNumber_rounded (by rw [exactNumber, if_neg hb, if_pos hz])).symm.trans h.symm

theorem heapNumber_eq_semanticPath {op : SmiOp} {d : Double} (h : Rounds op l r z false)
    (hd : d = rounded false z) (hz : ¬ InSmiRange z) (hSmall : |z| < 2 ^ 53) :
    .heapNumber d = semanticPath op (smi l) (smi r) := by
  rw [h, hd, ← finite_intCast hSmall, normalizeNumber_intCast, if_neg hz]

theorem fastLane_eq (op : SmiOp) (hOp : op ≠ .mul) :
    fastLane op l r = semanticPath op (smi l) (smi r) := by
  have hl := toInt_bounds l
  have hr := toInt_bounds r
  have hBits {op : SmiOp} {x : BitVec 32}
      (h : semanticPath op (smi l) (smi r) = normalizeNumber (.finite x.toInt)) :
      smi x = semanticPath op (smi l) (smi r) :=
    (h.trans (normalizeNumber_toInt x)).symm
  cases op
  case mul => exact absurd rfl hOp
  case add =>
    exact (guarded_eq_semanticPath_iff l r (rounds_add l r) (by rw [Int.cast_add]; rfl)).mpr
      (by simp)
  case sub =>
    exact (guarded_eq_semanticPath_iff l r (rounds_sub l r)
      (sub_intCast l r.toInt (by rw [abs_le]; omega))).mpr (by simp)
  case mod => rfl
  case bitAnd | bitOr | bitXor | shl | shr =>
    exact hBits (by simp only [semanticPath, bitwiseValues, toInt32_smi])
  case bitNot => exact hBits (by simp only [semanticPath, toInt32_smi, toInt32_toInt])
  case uShr =>
    have hNat : (l >>> (r &&& 31).toNat).toNat = l.toNat / 2 ^ (r &&& 31).toNat := by
      rw [BitVec.toNat_ushiftRight, Nat.shiftRight_eq_div_pow]
    have hRounds := rounds_uShr l r
    rw [← hNat] at hRounds
    have hu := (l >>> (r &&& 31).toNat).isLt
    simp only [fastLane]
    split <;> rename_i h <;> simp only [kSmiMax] at h
    case isTrue =>
      rw [smi, BitVec.toInt_eq_toNat_of_lt (by omega)]
      exact smi_eq_semanticPath l r hRounds
        (by simp only [InSmiRange, kSmiMin, kSmiMax]; omega) (by simp)
    case isFalse =>
      exact heapNumber_eq_semanticPath l r hRounds (finite_intCast (small_of_range (by omega)))
        (by simp only [InSmiRange, kSmiMin, kSmiMax]; omega) (small_of_range (by omega))
  case neg =>
    simp only [fastLane]
    split
    case isTrue h => simp [semanticPath, smi, Value.asDouble, neg, h, normalizeNumber]
    case isFalse h =>
      split
      case isTrue hMin =>
        rw [hMin]
        simp only [semanticPath, smi, Value.asDouble, hMin]
        norm_num [kSmiMin, kSmiMax, neg, normalizeNumber]
      case isFalse hMin =>
        simp only [kSmiMin] at hMin
        exact smi_eq_semanticPath l r (rounds_neg l r)
          (by simp only [InSmiRange, kSmiMin, kSmiMax]; omega) (by omega)
  case inc =>
    simp only [fastLane]
    split
    case isTrue h =>
      rw [← h]
      exact heapNumber_eq_semanticPath l r (rounds_inc l r) (by rw [Int.cast_add]; rfl)
        (by simp only [InSmiRange, kSmiMin, kSmiMax] at h ⊢; omega) (small_of_range (by omega))
    case isFalse h =>
      simp only [kSmiMax] at h
      exact smi_eq_semanticPath l r (rounds_inc l r)
        (by simp only [InSmiRange, kSmiMin, kSmiMax]; omega) (by simp)
  case dec =>
    simp only [fastLane]
    split
    case isTrue h =>
      rw [← h]
      exact heapNumber_eq_semanticPath l r (rounds_dec l r) (sub_intCast l 1 (by decide))
        (by simp only [InSmiRange, kSmiMin, kSmiMax] at h ⊢; omega) (small_of_range (by omega))
    case isFalse h =>
      simp only [kSmiMin] at h
      exact smi_eq_semanticPath l r (rounds_dec l r)
        (by simp only [InSmiRange, kSmiMin, kSmiMax]; omega) (by simp)
  case strictEq =>
    simp [fastLane, semanticPath, strictEquals, smi, Value.asDouble, Double.eq, value]
  case lt | le | gt | ge =>
    simp only [fastLane, semanticPath, relationalCompare_smi]
    grind

/-- A lane leaves what the doubles give, and so the integer result of the language, unless
it multiplies a zero by a negative number. -/
theorem fastLane_agrees_iff (op : SmiOp) : (fastLane op l r = semanticPath op (smi l) (smi r) ∧
      ∀ v, exactResult op l r = some v → fastLane op l r = v) ↔
      ¬ (op = .mul ∧ l.toInt * r.toInt = 0 ∧ (l.toInt < 0 ∨ r.toInt < 0)) := by
  have hExact : (fastLane op l r = semanticPath op (smi l) (smi r) ∧
      ∀ v, exactResult op l r = some v → fastLane op l r = v) ↔
      fastLane op l r = semanticPath op (smi l) (smi r) :=
    and_iff_left_of_imp fun h v hv => h.trans (semanticPath_exact l r op hv)
  rw [hExact]
  by_cases hOp : op = .mul
  · subst hOp
    refine (guarded_eq_semanticPath_iff l r (rounds_mul l r) (mul_intCast _ _)).trans ?_
    rw [not_iff_not, eq_self, true_and]
    refine and_congr_right fun hZero => ?_
    rcases mul_eq_zero.mp hZero with h | h <;> simp [h]
  · exact iff_of_true (fastLane_eq l r op hOp) fun h => hOp h.1

/-- Zero times minus one. -/
theorem fastLane_loses_sign : fastLane .mul 0 (-1) = .smi 0 ∧
      semanticPath .mul (smi 0) (smi (-1)) = .heapNumber .negativeZero :=
  ⟨by rw [fastLane]; exact if_pos (by decide), semanticPath_exact 0 (-1) .mul (by decide)⟩

end B2Compiler.Ts
