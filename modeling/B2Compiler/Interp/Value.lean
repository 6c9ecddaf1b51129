import B2Compiler.Rbc.Program

/-!
# Slot values and numeric kernels of the tier-0 interpreter

A slot value is a type tag over a 64-bit payload, read through a union.  The
integer kernels are the source's: thirty-two-bit operations compute in 64 bits
and narrow once, sixty-four-bit operations wrap in the unsigned domain.  The
IEEE operations come from the host and are a parameter, `FloatOps`, over bit
patterns.
-/

namespace B2Compiler.Interp

open Rbc BitVec

/-! ## Values -/

/-- One local, register, array element, field or result. -/
structure Value where
  type : RType := .bottom
  bits : BitVec 64 := 0
  deriving DecidableEq, Repr, Inhabited

namespace Value

/-- The `as.i` member of the payload union. -/
def asInt (v : Value) : BitVec 32 := v.bits.setWidth 32

/-- The `as.l` member. -/
def asLong (v : Value) : BitVec 64 := v.bits

/-- The `as.f` member, as a bit pattern. -/
def asFloat (v : Value) : BitVec 32 := v.bits.setWidth 32

/-- The `as.d` member, as a bit pattern. -/
def asDouble (v : Value) : BitVec 64 := v.bits

/-- The `as.obj` member: a heap object id. -/
def asObj (v : Value) : Nat := (v.bits.setWidth 32).toNat

def intVal (v : BitVec 32) : Value := ⟨.int, v.setWidth 64⟩

def longVal (v : BitVec 64) : Value := ⟨.long, v⟩

def floatVal (v : BitVec 32) : Value := ⟨.float, v.setWidth 64⟩

def doubleVal (v : BitVec 64) : Value := ⟨.double, v⟩

def refVal (obj : Nat) : Value := ⟨.ref, BitVec.ofNat 64 obj⟩

def nullVal : Value := ⟨.null, 0⟩

def bottom : Value := ⟨.bottom, 0⟩

def isNull (v : Value) : Bool := v.type = .null

def isRef (v : Value) : Bool := v.type = .ref

/-- Reference identity: null equals null only, objects compare by id. -/
def sameObject (a b : Value) : Bool :=
  if a.isNull || b.isNull then a.isNull && b.isNull
  else a.isRef && b.isRef && a.asObj == b.asObj

end Value

/-! ## Integer kernels -/

def wrapAdd32 (a b : BitVec 32) : BitVec 32 :=
  (a.signExtend 64 + b.signExtend 64).setWidth 32

def wrapSub32 (a b : BitVec 32) : BitVec 32 :=
  (a.signExtend 64 - b.signExtend 64).setWidth 32

def wrapMul32 (a b : BitVec 32) : BitVec 32 :=
  (a.signExtend 64 * b.signExtend 64).setWidth 32

def wrapAdd64 (a b : BitVec 64) : BitVec 64 := a + b

def wrapSub64 (a b : BitVec 64) : BitVec 64 := a - b

def wrapMul64 (a b : BitVec 64) : BitVec 64 := a * b

def neg32 (a : BitVec 32) : BitVec 32 := 0 - a

def neg64 (a : BitVec 64) : BitVec 64 := 0 - a

theorem setWidth_signExtend (a : BitVec 32) : (a.signExtend 64).setWidth 32 = a := by
  ext i hi
  have hiv : decide (i < 64) = true := decide_eq_true (by omega)
  simp only [getElem_setWidth, getLsbD_signExtend, hi, if_true, hiv,
    Bool.true_and, getLsbD_eq_getElem]

/-- Widening, adding and narrowing is addition modulo `2^32`. -/
theorem wrapAdd32_eq (a b : BitVec 32) : wrapAdd32 a b = a + b := by
  rw [wrapAdd32, setWidth_add _ _ (by decide), setWidth_signExtend, setWidth_signExtend]

theorem wrapSub32_eq (a b : BitVec 32) : wrapSub32 a b = a - b := by
  rw [wrapSub32, sub_eq_add_neg, setWidth_add _ _ (by decide),
    setWidth_neg_of_le (by decide), setWidth_signExtend, setWidth_signExtend,
    sub_eq_add_neg]

theorem wrapMul32_eq (a b : BitVec 32) : wrapMul32 a b = a * b := by
  rw [wrapMul32, setWidth_mul _ _ (by decide), setWidth_signExtend, setWidth_signExtend]

/-- Quotient of the `idiv`/`ldiv` handlers for a non-zero divisor: the one
overflowing pair is special-cased, the rest is truncating division. -/
def divKernel {w : Nat} (a b : BitVec w) : BitVec w :=
  if a = BitVec.intMin w ∧ b = -1 then BitVec.intMin w
  else BitVec.ofInt w (a.toInt.tdiv b.toInt)

/-- Remainder of the `irem`/`lrem` handlers for a non-zero divisor. -/
def remKernel {w : Nat} (a b : BitVec w) : BitVec w :=
  if a = BitVec.intMin w ∧ b = -1 then 0
  else BitVec.ofInt w (a.toInt.tmod b.toInt)

/-- `(a > b) - (a < b)` on signed operands, as an `int`. -/
def cmpKernel {w : Nat} (a b : BitVec w) : BitVec 32 :=
  (if a.toInt > b.toInt then 1 else 0) - (if a.toInt < b.toInt then 1 else 0)

/-- Shift counts are masked to the low five bits for `int`. -/
def kIntShiftMask : BitVec 32 := 0x1F

/-- Shift counts are masked to the low six bits for `long`. -/
def kLongShiftMask : BitVec 32 := 0x3F

/-! ## Floating point -/

/-- The host's IEEE operations on bit patterns (suffix `F` for single, `D` for
double precision).  `truncF` and `truncD` round an in-range value toward zero. -/
structure FloatOps where
  addF : BitVec 32 → BitVec 32 → BitVec 32
  subF : BitVec 32 → BitVec 32 → BitVec 32
  mulF : BitVec 32 → BitVec 32 → BitVec 32
  divF : BitVec 32 → BitVec 32 → BitVec 32
  fmodF : BitVec 32 → BitVec 32 → BitVec 32
  ltF : BitVec 32 → BitVec 32 → Bool
  addD : BitVec 64 → BitVec 64 → BitVec 64
  subD : BitVec 64 → BitVec 64 → BitVec 64
  mulD : BitVec 64 → BitVec 64 → BitVec 64
  divD : BitVec 64 → BitVec 64 → BitVec 64
  fmodD : BitVec 64 → BitVec 64 → BitVec 64
  ltD : BitVec 64 → BitVec 64 → Bool
  ofInt32F : BitVec 32 → BitVec 32
  ofInt32D : BitVec 32 → BitVec 64
  ofInt64F : BitVec 64 → BitVec 32
  ofInt64D : BitVec 64 → BitVec 64
  f2d : BitVec 32 → BitVec 64
  d2f : BitVec 64 → BitVec 32
  truncF : BitVec 32 → Int
  truncD : BitVec 64 → Int
  deriving Inhabited

/-- Single-precision NaN test on the bit pattern. -/
def isNanF (v : BitVec 32) : Bool :=
  v &&& 0x7F800000 == 0x7F800000 && v &&& 0x007FFFFF != 0

/-- Double-precision NaN test on the bit pattern. -/
def isNanD (v : BitVec 64) : Bool :=
  v &&& 0x7FF0000000000000 == 0x7FF0000000000000 && v &&& 0x000FFFFFFFFFFFFF != 0

namespace FloatOps

variable (F : FloatOps)

/-- Three-way comparison; `nan` is the result when an operand is not a number. -/
def cmpF (nan : BitVec 32) (a b : BitVec 32) : BitVec 32 :=
  if isNanF a || isNanF b then nan
  else (if F.ltF b a then 1 else 0) - (if F.ltF a b then 1 else 0)

def cmpD (nan : BitVec 32) (a b : BitVec 64) : BitVec 32 :=
  if isNanD a || isNanD b then nan
  else (if F.ltD b a then 1 else 0) - (if F.ltD a b then 1 else 0)

/-- Saturating conversion of a non-NaN value known to lie at or above the upper
bound, below the lower bound, or between them. -/
def saturate (w : Nat) (nan above below : Bool) (mid : Int) : BitVec w :=
  if nan then 0
  else if above then intMax w
  else if below then BitVec.intMin w
  else BitVec.ofInt w mid

def toInt32SatF (v : BitVec 32) : BitVec 32 :=
  saturate 32 (isNanF v) (!F.ltF v 0x4F000000) (F.ltF v 0xCF000000) (F.truncF v)

def toInt32SatD (v : BitVec 64) : BitVec 32 :=
  saturate 32 (isNanD v) (!F.ltD v 0x41E0000000000000) (F.ltD v 0xC1E0000000000000) (F.truncD v)

def toInt64SatF (v : BitVec 32) : BitVec 64 :=
  saturate 64 (isNanF v) (!F.ltF v 0x5F000000) (F.ltF v 0xDF000000) (F.truncF v)

def toInt64SatD (v : BitVec 64) : BitVec 64 :=
  saturate 64 (isNanD v) (!F.ltD v 0x43E0000000000000) (F.ltD v 0xC3E0000000000000) (F.truncD v)

end FloatOps

/-- What an arithmetic handler does: write a value to `dst`, or raise the
arithmetic exception. -/
inductive ArithResult where
  | value (v : Value)
  | divByZero
  deriving DecidableEq, Repr

/-- The value-producing handlers without side effects (arithmetic, comparisons,
conversions): the result for an instruction over a register file, or `none` for
an opcode outside the group.  Only the integer divisions can raise. -/
def arith (F : FloatOps) (ins : Ins) (reg : Nat → Value) : Option ArithResult :=
  let a := reg ins.aReg
  let b := reg ins.bReg
  let int (v : BitVec 32) : Option ArithResult := some (.value (.intVal v))
  let long (v : BitVec 64) : Option ArithResult := some (.value (.longVal v))
  let float (v : BitVec 32) : Option ArithResult := some (.value (.floatVal v))
  let double (v : BitVec 64) : Option ArithResult := some (.value (.doubleVal v))
  let intCount := (b.asInt &&& kIntShiftMask).toNat
  let longCount := (b.asInt &&& kLongShiftMask).toNat
  match ins.op with
  | .iadd => int (wrapAdd32 a.asInt b.asInt)
  | .isub => int (wrapSub32 a.asInt b.asInt)
  | .imul => int (wrapMul32 a.asInt b.asInt)
  | .idiv => if b.asInt = 0 then some .divByZero else int (divKernel a.asInt b.asInt)
  | .irem => if b.asInt = 0 then some .divByZero else int (remKernel a.asInt b.asInt)
  | .ineg => int (neg32 a.asInt)
  | .ishl => int (a.asInt <<< intCount)
  | .ishr => int (a.asInt.sshiftRight intCount)
  | .iushr => int (a.asInt >>> intCount)
  | .iand => int (a.asInt &&& b.asInt)
  | .ior => int (a.asInt ||| b.asInt)
  | .ixor => int (a.asInt ^^^ b.asInt)
  | .iinc => int (wrapAdd32 (reg ins.dstReg).asInt ins.imm)
  | .ladd => long (wrapAdd64 a.asLong b.asLong)
  | .lsub => long (wrapSub64 a.asLong b.asLong)
  | .lmul => long (wrapMul64 a.asLong b.asLong)
  | .ldiv => if b.asLong = 0 then some .divByZero else long (divKernel a.asLong b.asLong)
  | .lrem => if b.asLong = 0 then some .divByZero else long (remKernel a.asLong b.asLong)
  | .lneg => long (neg64 a.asLong)
  -- The count register of a long shift is an `int`.
  | .lshl => long (a.asLong <<< longCount)
  | .lshr => long (a.asLong.sshiftRight longCount)
  | .lushr => long (a.asLong >>> longCount)
  | .land => long (a.asLong &&& b.asLong)
  | .lor => long (a.asLong ||| b.asLong)
  | .lxor => long (a.asLong ^^^ b.asLong)
  | .fadd => float (F.addF a.asFloat b.asFloat)
  | .fsub => float (F.subF a.asFloat b.asFloat)
  | .fmul => float (F.mulF a.asFloat b.asFloat)
  | .fdiv => float (F.divF a.asFloat b.asFloat)
  | .frem => float (F.fmodF a.asFloat b.asFloat)
  | .fneg => float (a.asFloat ^^^ 0x80000000)
  | .dadd => double (F.addD a.asDouble b.asDouble)
  | .dsub => double (F.subD a.asDouble b.asDouble)
  | .dmul => double (F.mulD a.asDouble b.asDouble)
  | .ddiv => double (F.divD a.asDouble b.asDouble)
  | .drem => double (F.fmodD a.asDouble b.asDouble)
  | .dneg => double (a.asDouble ^^^ 0x8000000000000000)
  | .icmp => int (cmpKernel a.asInt b.asInt)
  | .lcmp => int (cmpKernel a.asLong b.asLong)
  | .fcmpl => int (F.cmpF (-1) a.asFloat b.asFloat)
  | .fcmpg => int (F.cmpF 1 a.asFloat b.asFloat)
  | .dcmpl => int (F.cmpD (-1) a.asDouble b.asDouble)
  | .dcmpg => int (F.cmpD 1 a.asDouble b.asDouble)
  | .i2l => long (a.asInt.signExtend 64)
  | .i2f => float (F.ofInt32F a.asInt)
  | .i2d => double (F.ofInt32D a.asInt)
  | .l2i => int (a.asLong.setWidth 32)
  | .l2f => float (F.ofInt64F a.asLong)
  | .l2d => double (F.ofInt64D a.asLong)
  | .f2i => int (F.toInt32SatF a.asFloat)
  | .f2l => long (F.toInt64SatF a.asFloat)
  | .f2d => double (F.f2d a.asFloat)
  | .d2i => int (F.toInt32SatD a.asDouble)
  | .d2l => long (F.toInt64SatD a.asDouble)
  | .d2f => float (F.d2f a.asDouble)
  | .i2b => int ((a.asInt.setWidth 8).signExtend 32)
  | .i2c => int ((a.asInt.setWidth 16).setWidth 32)
  | .i2s => int ((a.asInt.setWidth 16).signExtend 32)
  | _ => none

end B2Compiler.Interp
