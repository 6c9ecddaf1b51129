import B2Compiler.Codegen.X64Emitter

/-!
# Stencil bodies of the integer opcodes

One machine-code template for each int and long opcode, as the stencil generator
emits it.
-/

namespace B2Compiler.Codegen

open Rbc

/-- Type tags as stored in a slot. -/
def kTagInt : BitVec 32 := 1

def kTagLong : BitVec 32 := 2

/-- Condition numbers of `jcc` and `setcc`. -/
def kCcB : BitVec 8 := 2

def kCcE : BitVec 8 := 4

def kCcA : BitVec 8 := 7

/-- Store the accumulator and a tag into the destination slot, payload first. -/
def storeResult64 (x : X64) (tag : BitVec 32) : X64 :=
  (x.storeSlot kA .insDst kDeltaPayload).storeImm32Slot .insDst tag kDeltaTag

/-- Sign-extend the 32-bit accumulator and store it as an `int`. -/
def storeResult32 (x : X64) : X64 :=
  storeResult64 (x.movsxdReg kA kA) kTagInt

def intBinary (x : X64) (op : Alu) : X64 :=
  storeResult32 ((x.loadSlot32 kA .insA).aluSlot32 kA op .insB)

def intMul (x : X64) : X64 :=
  storeResult32 ((x.loadSlot32 kA .insA).imulSlot32 kA .insB)

/-- Division and remainder: a zero divisor branches to the deopt thunk. -/
def intDivRem (x : X64) (remainder : Bool) : X64 :=
  let x := (x.loadSlot32 kA .insA).loadSlot32 kT .insB
  let x := (x.testReg32 kT kT).jccHole kCcE .deoptIdSource .layout
  let x := x.cdq.idivReg32 kT
  let x := if remainder then x.movRegReg kA kC else x
  storeResult32 x

def longBinary (x : X64) (op : Alu) : X64 :=
  storeResult64 ((x.loadSlot kA .insA).aluSlot kA op .insB) kTagLong

def longDivRem (x : X64) (remainder : Bool) : X64 :=
  let x := (x.loadSlot kA .insA).loadSlot kT .insB
  -- test r10, r10
  let x := x.emit [0x4D, 0x85, 0xD2]
  let x := x.jccHole kCcE .deoptIdSource .layout
  let x := x.cqo.idivReg64 kT
  let x := if remainder then x.movRegReg kA kC else x
  storeResult64 x kTagLong

def intShift (x : X64) (s : Shift) : X64 :=
  storeResult32 (((x.loadSlot32 kA .insA).loadSlot32 kB .insB).shiftByCl kA s false)

def longShift (x : X64) (s : Shift) : X64 :=
  storeResult64 (((x.loadSlot kA .insA).loadSlot kB .insB).shiftByCl kA s true) kTagLong

/-- Three-way comparison.  The zeroing precedes the compare because it sets the
flags; the `-1/0/1` result is built in the secondary register. -/
def compareBody (x : X64) (wide : Bool) : X64 :=
  let x := x.xorRegReg32 kB kB
  let x := if wide then (x.loadSlot kA .insA).aluSlot kA .cmp .insB
    else (x.loadSlot32 kA .insA).aluSlot32 kA .cmp .insB
  let x := ((x.setcc kB kCcA).setcc kC kCcB).movzxR32R8 kC kC
  let x := (x.aluRegReg32 kB .sub kC).movsxdReg kA kB
  storeResult64 x kTagInt

/-- The body of an int or long opcode; `none` for an opcode outside the group. -/
def emitOpBody (op : Op) (x : X64) : Option X64 :=
  match op with
  | .iadd => some (intBinary x .add)
  | .isub => some (intBinary x .sub)
  | .iand => some (intBinary x .and)
  | .ior => some (intBinary x .or)
  | .ixor => some (intBinary x .xor)
  | .imul => some (intMul x)
  | .idiv => some (intDivRem x false)
  | .irem => some (intDivRem x true)
  | .ineg => some (storeResult32 ((x.loadSlot32 kA .insA).negReg32 kA))
  | .ishl => some (intShift x .shl)
  | .ishr => some (intShift x .sar)
  | .iushr => some (intShift x .shr)
  | .iinc =>
    some (storeResult32 ((x.loadSlot32 kA .insDst).addEaxImm32Hole .imm32 .insImm .plan))
  | .ladd => some (longBinary x .add)
  | .lsub => some (longBinary x .sub)
  | .land => some (longBinary x .and)
  | .lor => some (longBinary x .or)
  | .lxor => some (longBinary x .xor)
  | .lmul => some (storeResult64 ((x.loadSlot kA .insA).imulSlot kA .insB) kTagLong)
  | .ldiv => some (longDivRem x false)
  | .lrem => some (longDivRem x true)
  | .lneg => some (storeResult64 ((x.loadSlot kA .insA).negReg64 kA) kTagLong)
  | .lshl => some (longShift x .shl)
  | .lshr => some (longShift x .sar)
  | .lushr => some (longShift x .shr)
  | .icmp => some (compareBody x false)
  | .lcmp => some (compareBody x true)
  | .i2l => some (storeResult64 (x.movsxdSlot kA .insA) kTagLong)
  | .l2i =>
    some (((x.loadSlot32 kA .insA).storeSlot kA .insDst kDeltaPayload).storeImm32Slot
      .insDst kTagInt kDeltaTag)
  | .i2b => some (storeResult32 (x.extendLoad kA .sx8 .insA))
  | .i2c => some (storeResult32 (x.extendLoad kA .zx16 .insA))
  | .i2s => some (storeResult32 (x.extendLoad kA .sx16 .insA))
  | _ => none

/-- The instantiated machine code of an instruction. -/
def bodyBytes (c : BodyCtx) : Option (List (BitVec 8)) :=
  (emitOpBody c.ins.op {}).bind c.patch

end B2Compiler.Codegen
