import B2Compiler.Codegen.BodyEffects

/-!
# Tier agreement on integer opcodes

The machine-code body of an int or long opcode against the interpreter's handler
for it, on every activation.

The bodies agree with the handlers except on two groups of inputs: the
comparison bodies test the unsigned conditions, so they are wrong exactly when
the operands differ in sign, and the division bodies execute `idiv` on
`MIN_VALUE / -1`, which the processor answers with a divide error.
-/

namespace B2Compiler.Codegen

open Rbc List BitVec
open Interp
open Lib.X86 (State)

/-- Thirty-two-bit arithmetic without division. -/
def intArithOps : List Op :=
  [.iadd, .isub, .imul, .ineg, .ishl, .ishr, .iushr, .iand, .ior, .ixor, .iinc]

/-- Sixty-four-bit arithmetic without division. -/
def longArithOps : List Op :=
  [.ladd, .lsub, .lmul, .lneg, .lshl, .lshr, .lushr, .land, .lor, .lxor]

/-- Conversions between the integer types. -/
def convertOps : List Op := [.i2l, .l2i, .i2b, .i2c, .i2s]

/-- The int and long opcodes of RBC. -/
def intOps : List Op :=
  intArithOps ++ longArithOps ++ convertOps ++ [.idiv, .irem, .ldiv, .lrem, .icmp, .lcmp]

/-- The same value in a slot: the tags agree, and the payloads agree at the width
the tag is read with.  An `int` payload is read through its low half only; tier 1
stores it sign-extended and tier 0 zero-extended. -/
def SameValue (u v : Value) : Prop :=
  u.type = v.type ∧ if v.type = .int then u.asInt = v.asInt else u.bits = v.bits

/-- The body does what the interpreter's handler does: it leaves the handler's
value in the destination, or leaves for the deopt thunk with the activation
untouched when the handler raises the arithmetic exception. -/
def Agrees (F : FloatOps) (c : BodyCtx) (s : State) : Prop :=
  match arith F c.ins (c.regFile s) with
  | some (.value v) => ∃ u, c.Leaves s u ∧ SameValue u v
  | some .divByZero =>
    ∃ s', c.run s = some (.jump c.thunkOffset s') ∧ s'.mem = s.mem ∧ s'.gpr .rbp = s.gpr .rbp
  | none => False

/-- The inputs on which a body goes wrong: comparisons of operands that differ in
sign, and the overflowing quotient. -/
def diverges (op : Op) (a b : Value) : Bool :=
  match op with
  | .icmp => a.asInt.msb != b.asInt.msb
  | .lcmp => a.asLong.msb != b.asLong.msb
  | .idiv | .irem => a.asInt == intMin 32 && b.asInt == -1
  | .ldiv | .lrem => a.asLong == intMin 64 && b.asLong == -1
  | _ => false

section Agreement

variable {F : FloatOps} {c : BodyCtx} {s : State}

theorem regFile_toNat (c : BodyCtx) (s : State) (r : BitVec 16) :
    c.regFile s r.toNat = c.slotValue s r := by
  simp only [BodyCtx.regFile, ofNat_toNat, setWidth_eq]

theorem asInt_intVal (v : BitVec 32) : (Value.intVal v).asInt = v := by
  simp only [Value.intVal, Value.asInt]
  rw [setWidth_setWidth_of_le _ (by decide), setWidth_eq]

theorem sameValue_int (v : BitVec 32) : SameValue ⟨.int, v.signExtend 64⟩ (.intVal v) := by
  refine ⟨rfl, ?_⟩
  show (v.signExtend 64).setWidth 32 = (Value.intVal v).asInt
  rw [asInt_intVal, setWidth_signExtend]

theorem agrees_int {v : BitVec 32}
    (harith : arith F c.ins (c.regFile s) = some (.value (.intVal v)))
    (h : c.Leaves s ⟨.int, v.signExtend 64⟩) : Agrees F c s := by
  rw [Agrees, harith]
  exact ⟨_, h, sameValue_int v⟩

theorem agrees_long {v : BitVec 64}
    (harith : arith F c.ins (c.regFile s) = some (.value (.longVal v)))
    (h : c.Leaves s ⟨.long, v⟩) : Agrees F c s := by
  rw [Agrees, harith]
  exact ⟨_, h, rfl, rfl⟩

theorem not_overflow_of_zero {w : Nat} (hw : 0 < w) (a b : BitVec w) (hb : b = 0) :
    ¬(a = BitVec.intMin w ∧ b = -1) := by
  rintro ⟨_, hone⟩
  have hall : (-1 : BitVec w) = BitVec.allOnes w := BitVec.neg_one_eq_allOnes
  have hmsb := congrArg BitVec.msb (hb.symm.trans (hone.trans hall))
  rw [BitVec.msb_allOnes hw] at hmsb
  simp at hmsb

/-- A division body agrees exactly when it does not execute the overflowing
quotient. -/
theorem agrees_div_iff {w : Nat} (hw : 0 < w) {a b : BitVec w} {u v : Value}
    (hspec : DivSpec c s (b = 0) (a = BitVec.intMin w ∧ b = -1) u)
    (hsame : ¬(a = BitVec.intMin w ∧ b = -1) → SameValue u v)
    (harith : arith F c.ins (c.regFile s) =
      if b = 0 then some .divByZero else some (.value v)) :
    Agrees F c s ↔ ¬(a = BitVec.intMin w ∧ b = -1) := by
  by_cases hz : b = 0
  · rw [Agrees, harith, if_pos hz]
    exact ⟨fun _ => not_overflow_of_zero hw a b hz, fun _ => hspec.trap hz⟩
  rw [Agrees, harith, if_neg hz]
  constructor
  · rintro ⟨w, ⟨s', hrun, _⟩, _⟩ hover
    rw [hspec.fault hz hover] at hrun
    simp only [Option.some.injEq, reduceCtorEq] at hrun
  · intro hover
    exact ⟨u, hspec.value hz hover, hsame hover⟩

/-- The comparison bodies agree exactly on operands of one sign. -/
theorem agrees_cmp_iff {w : Nat} (a b : BitVec w)
    (harith : arith F c.ins (c.regFile s) = some (.value (.intVal (cmpKernel a b))))
    (h : c.Leaves s ⟨.int, (unsignedCmp a b).signExtend 64⟩) :
    Agrees F c s ↔ (a.msb != b.msb) = false := by
  have hiff : (a.msb != b.msb) = false ↔ unsignedCmp a b = cmpKernel a b := by
    rw [unsignedCmp_eq_iff, bne_eq_false_iff_eq]
  rw [hiff, Agrees, harith]
  constructor
  · rintro ⟨u, ⟨s', hrun, _, hslot⟩, _, hsame⟩
    obtain ⟨s'', hrun', _, hslot'⟩ := h
    rw [hrun] at hrun'
    simp only [Option.some.injEq, Lib.X86.Outcome.fall.injEq] at hrun'
    subst hrun'
    rw [← hslot, hslot'] at hsame
    have hint : ((unsignedCmp a b).signExtend 64).setWidth 32 =
        (Value.intVal (cmpKernel a b)).asInt := hsame
    rw [setWidth_signExtend, asInt_intVal] at hint
    exact hint
  · intro heq
    rw [heq] at h
    exact ⟨_, h, sameValue_int _⟩

end Agreement

/-! ## The opcodes -/

section Opcodes

variable (F : FloatOps) {c : BodyCtx} (s : State)

theorem agrees_intArith (hop : c.ins.op ∈ intArithOps) : Agrees F c s := by
  simp only [intArithOps, mem_cons, not_mem_nil, or_false] at hop
  rcases hop with h | h | h | h | h | h | h | h | h | h | h
  on_goal 1 => refine agrees_int ?_ (leaves_intBinary .add (by decide) (by rw [h]; rfl))
  on_goal 2 => refine agrees_int ?_ (leaves_intBinary .sub (by decide) (by rw [h]; rfl))
  on_goal 3 => refine agrees_int ?_ (leaves_imul (by rw [h]; rfl))
  on_goal 4 => refine agrees_int ?_ (leaves_ineg (by rw [h]; rfl))
  on_goal 5 => refine agrees_int ?_ (leaves_intShift .shl (by rw [h]; rfl))
  on_goal 6 => refine agrees_int ?_ (leaves_intShift .sar (by rw [h]; rfl))
  on_goal 7 => refine agrees_int ?_ (leaves_intShift .shr (by rw [h]; rfl))
  on_goal 8 => refine agrees_int ?_ (leaves_intBinary .and (by decide) (by rw [h]; rfl))
  on_goal 9 => refine agrees_int ?_ (leaves_intBinary .or (by decide) (by rw [h]; rfl))
  on_goal 10 => refine agrees_int ?_ (leaves_intBinary .xor (by decide) (by rw [h]; rfl))
  on_goal 11 => refine agrees_int ?_ (leaves_iinc (by rw [h]; rfl))
  all_goals
    simp only [arith, h, Ins.aReg, Ins.bReg, regFile_toNat, wrapAdd32_eq, wrapSub32_eq,
      wrapMul32_eq, neg32, Ins.dstReg]
    try rfl

theorem agrees_longArith (hop : c.ins.op ∈ longArithOps) : Agrees F c s := by
  simp only [longArithOps, mem_cons, not_mem_nil, or_false] at hop
  rcases hop with h | h | h | h | h | h | h | h | h | h
  on_goal 1 => refine agrees_long ?_ (leaves_longBinary .add (by decide) (by rw [h]; rfl))
  on_goal 2 => refine agrees_long ?_ (leaves_longBinary .sub (by decide) (by rw [h]; rfl))
  on_goal 3 => refine agrees_long ?_ (leaves_lmul (by rw [h]; rfl))
  on_goal 4 => refine agrees_long ?_ (leaves_lneg (by rw [h]; rfl))
  on_goal 5 => refine agrees_long ?_ (leaves_longShift .shl (by rw [h]; rfl))
  on_goal 6 => refine agrees_long ?_ (leaves_longShift .sar (by rw [h]; rfl))
  on_goal 7 => refine agrees_long ?_ (leaves_longShift .shr (by rw [h]; rfl))
  on_goal 8 => refine agrees_long ?_ (leaves_longBinary .and (by decide) (by rw [h]; rfl))
  on_goal 9 => refine agrees_long ?_ (leaves_longBinary .or (by decide) (by rw [h]; rfl))
  on_goal 10 => refine agrees_long ?_ (leaves_longBinary .xor (by decide) (by rw [h]; rfl))
  all_goals
    simp only [arith, h, Ins.aReg, Ins.bReg, regFile_toNat, wrapMul64, neg64]
    try rfl

theorem agrees_convert (hop : c.ins.op ∈ convertOps) : Agrees F c s := by
  simp only [convertOps, mem_cons, not_mem_nil, or_false] at hop
  rcases hop with h | h | h | h | h
  · refine agrees_long ?_ (leaves_i2l (by rw [h]; rfl))
    simp only [arith, h, Ins.aReg, regFile_toNat]
  · -- The zero-extended payload is the interpreter's own.
    have harith : arith F c.ins (c.regFile s) =
        some (.value (.intVal (c.slotValue s c.ins.a).asInt)) := by
      simp only [arith, h, Ins.aReg, regFile_toNat]
      rfl
    rw [Agrees, harith]
    exact ⟨_, leaves_l2i (by rw [h]; rfl), rfl, rfl⟩
  · refine agrees_int ?_ (leaves_narrow .sx8 _ rfl (by rw [h]; rfl))
    simp only [arith, h, Ins.aReg, regFile_toNat]
  · refine agrees_int ?_ (leaves_narrow .zx16 _ rfl (by rw [h]; rfl))
    simp only [arith, h, Ins.aReg, regFile_toNat]
  · refine agrees_int ?_ (leaves_narrow .sx16 _ rfl (by rw [h]; rfl))
    simp only [arith, h, Ins.aReg, regFile_toNat]

theorem agrees_intDiv_iff (hop : c.ins.op = .idiv ∨ c.ins.op = .irem) :
    Agrees F c s ↔ ¬((c.slotValue s c.ins.a).asInt = intMin 32 ∧
      (c.slotValue s c.ins.b).asInt = -1) := by
  rcases hop with h | h
  · refine agrees_div_iff (by decide)
      (divSpec_int (show _ = some (intDivRem {} false) by rw [h]; rfl))
      (v := .intVal (divKernel (c.slotValue s c.ins.a).asInt (c.slotValue s c.ins.b).asInt))
      (fun hover => ?_) (by simp only [arith, h, Ins.aReg, Ins.bReg, regFile_toNat])
    rw [divKernel, if_neg hover]
    exact sameValue_int _
  · refine agrees_div_iff (by decide)
      (divSpec_int (show _ = some (intDivRem {} true) by rw [h]; rfl))
      (v := .intVal (remKernel (c.slotValue s c.ins.a).asInt (c.slotValue s c.ins.b).asInt))
      (fun hover => ?_) (by simp only [arith, h, Ins.aReg, Ins.bReg, regFile_toNat])
    rw [remKernel, if_neg hover]
    exact sameValue_int _

theorem agrees_longDiv_iff (hop : c.ins.op = .ldiv ∨ c.ins.op = .lrem) :
    Agrees F c s ↔ ¬((c.slotValue s c.ins.a).asLong = intMin 64 ∧
      (c.slotValue s c.ins.b).asLong = -1) := by
  rcases hop with h | h
  · refine agrees_div_iff (by decide)
      (divSpec_long (show _ = some (longDivRem {} false) by rw [h]; rfl))
      (v := .longVal (divKernel (c.slotValue s c.ins.a).asLong (c.slotValue s c.ins.b).asLong))
      (fun hover => ?_) (by simp only [arith, h, Ins.aReg, Ins.bReg, regFile_toNat])
    rw [divKernel, if_neg hover]
    exact ⟨rfl, rfl⟩
  · refine agrees_div_iff (by decide)
      (divSpec_long (show _ = some (longDivRem {} true) by rw [h]; rfl))
      (v := .longVal (remKernel (c.slotValue s c.ins.a).asLong (c.slotValue s c.ins.b).asLong))
      (fun hover => ?_) (by simp only [arith, h, Ins.aReg, Ins.bReg, regFile_toNat])
    rw [remKernel, if_neg hover]
    exact ⟨rfl, rfl⟩

theorem agrees_icmp_iff (h : c.ins.op = .icmp) : Agrees F c s ↔
      ((c.slotValue s c.ins.a).asInt.msb != (c.slotValue s c.ins.b).asInt.msb) = false := by
  refine agrees_cmp_iff _ _ ?_ (leaves_icmp (by rw [h]; rfl))
  simp only [arith, h, Ins.aReg, Ins.bReg, regFile_toNat]

theorem agrees_lcmp_iff (h : c.ins.op = .lcmp) : Agrees F c s ↔
      ((c.slotValue s c.ins.a).asLong.msb != (c.slotValue s c.ins.b).asLong.msb) = false := by
  refine agrees_cmp_iff _ _ ?_ (leaves_lcmp (by rw [h]; rfl))
  simp only [arith, h, Ins.aReg, Ins.bReg, regFile_toNat]

end Opcodes

/-- Opcodes outside the comparison and division groups never diverge. -/
theorem diverges_straight {op : Op} (a b : Value)
    (hop : op ∈ intArithOps ++ longArithOps ++ convertOps) : diverges op a b = false := by
  simp only [intArithOps, longArithOps, convertOps, mem_append, mem_cons,
    not_mem_nil, or_false] at hop
  cases op <;> first | rfl | simp at hop

/-- **Tier agreement.**  On every activation, the body of an int or long opcode
agrees with the interpreter's handler exactly when the operands are not a
comparison across signs and not the overflowing quotient. -/
theorem tier1_agrees_iff (F : FloatOps) (c : BodyCtx) (s : State) (hop : c.ins.op ∈ intOps) :
    Agrees F c s ↔ diverges c.ins.op (c.slotValue s c.ins.a) (c.slotValue s c.ins.b) = false := by
  rcases mem_append.mp hop with hstraight | hcritical
  · have hd := diverges_straight (c.slotValue s c.ins.a) (c.slotValue s c.ins.b) hstraight
    refine ⟨fun _ => hd, fun _ => ?_⟩
    rcases mem_append.mp hstraight with harith | hconv
    · rcases mem_append.mp harith with hint | hlong
      · exact agrees_intArith F s hint
      · exact agrees_longArith F s hlong
    · exact agrees_convert F s hconv
  · simp only [mem_cons, not_mem_nil, or_false] at hcritical
    rcases hcritical with h | h | h | h | h | h
    · rw [agrees_intDiv_iff F s (Or.inl h), h]
      simp [diverges]
    · rw [agrees_intDiv_iff F s (Or.inr h), h]
      simp [diverges]
    · rw [agrees_longDiv_iff F s (Or.inl h), h]
      simp [diverges]
    · rw [agrees_longDiv_iff F s (Or.inr h), h]
      simp [diverges]
    · rw [agrees_icmp_iff F s h, h]
      simp only [diverges]
    · rw [agrees_lcmp_iff F s h, h]
      simp only [diverges]

/-- An activation at address zero whose register 1 holds the given payload and
whose other bytes are zero. -/
def activationWith (payload : BitVec 64) : State :=
  { gpr := fun _ => 0
    flags := ⟨false, false, false, false⟩
    mem := Lib.X86.write (fun _ => 0) 176 8 payload }

/-- A body of the given opcode on registers `r0 := r1 op r2` in a frame without
locals. -/
def bodyFor (op : Op) : BodyCtx := ⟨⟨op, 0, 1, 2, 0⟩, 0, 0, 0x1000⟩

/-- The agreement at `-1 + 0`, where it holds. -/
theorem tier1_agrees_iff_iadd : (bodyFor .iadd).ins.op ∈ intOps ∧
      (Agrees default (bodyFor .iadd) (activationWith 0xFFFFFFFF) ↔
        diverges .iadd ((bodyFor .iadd).slotValue (activationWith 0xFFFFFFFF) 1)
          ((bodyFor .iadd).slotValue (activationWith 0xFFFFFFFF) 2) = false) :=
  ⟨by decide, tier1_agrees_iff default (bodyFor .iadd) (activationWith 0xFFFFFFFF) (by decide)⟩

/-- The comparison of `-1` with `0` disagrees: the body answers `1`. -/
theorem not_all_agree :
    ¬∀ (F : FloatOps) (c : BodyCtx) (s : State), c.ins.op ∈ intOps → Agrees F c s := by
  intro hall
  have hagree := hall default (bodyFor .icmp) (activationWith 0xFFFFFFFF) (by decide)
  rw [agrees_icmp_iff default _ rfl] at hagree
  revert hagree
  decide

end B2Compiler.Codegen
