import B2Compiler.Baseline.PlanBuilder
import B2Compiler.Codegen.BodyEffects
import B2Compiler.Interp.Machine

/-!
# Superinstruction bodies and the bodies they replace

A body is the list of emitter calls that produced it.  Each call stands for one
machine operation on the activation: the slots of locals and registers behind the
activation base, the return slot of the control block, a few machine registers
and the helpers of the runtime.  A hole names the window step whose instruction
supplies its value.  The integer bodies are followed down to bytes elsewhere; here
the subject is what a fused body does to an activation compared with the bodies of
its steps, one after another.
-/

namespace B2Compiler.Codegen.Fusion

open Rbc Function
open Interp
open Baseline
open Codegen (Gpr kA kB kTagInt typeOfTag)
open Lib.X86 (Flags Cond)

/-! ## Activations -/

/-- Sixteen bytes by lanes: the tag, four bytes of padding, the payload. -/
structure Slot where
  tag : BitVec 32
  pad : BitVec 32
  payload : BitVec 64
  deriving DecidableEq, Repr

/-- The value in a slot. -/
def Slot.value (s : Slot) : Value := ⟨typeOfTag s.tag, s.payload⟩

def tagOf : RType → BitVec 32
  | .bottom => 0
  | .int => 1
  | .long => 2
  | .float => 3
  | .double => 4
  | .null => 5
  | .ref => 6

/-- A slot that holds a value. -/
def Slot.ofValue (v : Value) : Slot := ⟨tagOf v.type, 0, v.bits⟩

/-- A slot of the activation: a flat slot index, locals first, or the return slot. -/
inductive Addr where
  | slot (flat : Nat)
  | ret
  deriving DecidableEq, Repr

/-- A helper argument: a slot of the activation or a plain word. -/
inductive Arg where
  | addr (a : Addr)
  | word (w : BitVec 32)
  deriving DecidableEq, Repr

/-- The part of the state a body leaves behind: the slots, the pending trap, and the
runtime. -/
structure Activation where
  slots : Addr → Slot
  trapKind : BitVec 32
  pendingExc : Nat
  rt : Runtime

namespace Activation

def setSlot (A : Activation) (a : Addr) (s : Slot) : Activation :=
  { A with slots := update A.slots a s }

/-- The int payload of a slot. -/
def payload32 (A : Activation) (a : Addr) : BitVec 32 := (A.slots a).payload.setWidth 32

end Activation

/-- Machine state while a body runs.  The helper arguments travel in registers no
body reads afterwards, so they are kept apart from the scratch registers. -/
structure Cpu where
  gpr : Gpr → BitVec 64
  xmm0 : Slot
  flags : Flags
  args : Nat → Arg
  act : Activation

namespace Cpu

def setGpr (c : Cpu) (r : Gpr) (v : BitVec 64) : Cpu :=
  { c with gpr := update c.gpr r v }

def setSlot (c : Cpu) (a : Addr) (s : Slot) : Cpu :=
  { c with act := c.act.setSlot a s }

/-- The low half of a scratch register. -/
def gpr32 (c : Cpu) (r : Gpr) : BitVec 32 := (c.gpr r).setWidth 32

/-- Writing the low half clears the high one. -/
def setGpr32 (c : Cpu) (r : Gpr) (v : BitVec 32) : Cpu := c.setGpr r (v.setWidth 64)

end Cpu

/-! ## Runtime helpers -/

inductive HelperId where
  | getField | arrayLength
  deriving DecidableEq, Repr

/-- The trap kind of the two helpers. -/
def kTrapNpe : BitVec 32 := 1

/-- Build the exception, leave it pending, and report the kind. -/
def trap (A : Activation) (kind : BitVec 32) (cls msg : String) : Activation × BitVec 32 :=
  let (exc, rt) := A.rt.makeException cls msg
  ({ A with rt := rt, pendingExc := exc, trapKind := kind }, kind)

/-- Type in the high nibble of a packed field word. -/
def fieldTypeOf (fieldOffAndType : BitVec 32) : RType := typeOfTag (fieldOffAndType >>> 28)

/-- Read a field of the object in one slot into another. -/
def b2cgGetField (A : Activation) (obj : Addr) (fieldOffAndType : BitVec 32) (dst : Addr) :
    Activation × BitVec 32 :=
  let o := (A.slots obj).value
  if o.isNull then trap A kTrapNpe kClsNullPointer ""
  else
    let fieldOff := (fieldOffAndType &&& 0x0FFFFFFF).toNat
    let (v, heap) := A.rt.heap.loadField o.asObj (Runtime.slotOfFieldOffset fieldOff)
    let A := { A with rt := { A.rt with heap } }
    if v.type = .bottom then
      if ¬ heap.isInstance o.asObj then trap A kTrapNpe kClsInternalError kMsgNonInstance
      else
        -- a field never written reads as the default of its type
        match fieldTypeOf fieldOffAndType with
        | .bottom => trap A kTrapNpe kClsInternalError "quickened getfield of unwritten field (v0)"
        | t => (A.setSlot dst (.ofValue (zeroOf t)), 0)
    else (A.setSlot dst (.ofValue v), 0)

def b2cgArrayLength (A : Activation) (arr dst : Addr) : Activation × BitVec 32 :=
  let a := (A.slots arr).value
  if a.isNull then trap A kTrapNpe kClsNullPointer ""
  else if ¬ A.rt.heap.isArray a.asObj then
    trap A kTrapNpe kClsInternalError "arraylength on non-array"
  else
    (A.setSlot dst (.ofValue (.intVal (BitVec.ofNat 32 (A.rt.heap.arrayLength a.asObj)))), 0)

/-- Call a helper with the arguments in place; the result is in the accumulator. -/
def callHelper (c : Cpu) (id : HelperId) : Cpu :=
  let r : Activation × BitVec 32 :=
    match id, c.args 2, c.args 3, c.args 4 with
    | .getField, .addr obj, .word field, .addr dst => b2cgGetField c.act obj field dst
    | .arrayLength, .addr arr, .addr dst, _ => b2cgArrayLength c.act arr dst
    | _, _, _, _ => (c.act, 0)
  { c with act := r.1 }.setGpr32 kA r.2

/-! ## Emitter calls -/

/-- Operand field of an instruction that a slot hole is filled from. -/
inductive SlotSource where
  | insDst | insA | insB | frameSlot
  deriving DecidableEq, Repr

/-- A slot hole: the operand and the window step it comes from. -/
structure SlotHole where
  source : SlotSource
  step : Nat := 0
  deriving DecidableEq, Repr

/-- Two-operand arithmetic on the low halves. -/
inductive Alu where
  | add | sub | cmp
  deriving DecidableEq, Repr

def Alu.eval (op : Alu) (a b : BitVec 32) : BitVec 32 × Flags :=
  match op with
  | .add => Lib.X86.Alu.eval .add a b
  | .sub => Lib.X86.Alu.eval .sub a b
  | .cmp => Lib.X86.Alu.eval .cmp a b

/-- The emitter calls the bodies below are made of. -/
inductive EmitOp where
  | loadSlot32 (dst : Gpr) (src : SlotHole)
  | aluSlot32 (dst : Gpr) (op : Alu) (src : SlotHole)
  | imulSlot32 (dst : Gpr) (src : SlotHole)
  | aluImm32 (dst : Gpr) (op : Alu) (imm : BitVec 32)
  | addEaxImm32Hole (step : Nat)
  | cmpEaxImm32Hole (step : Nat)
  | cmpSlotZero (src : SlotHole)
  | movsxdReg (dst src : Gpr)
  | movRegImm32 (dst : Gpr) (imm : BitVec 32)
  | xorRegReg32 (a : Gpr)
  | testReg32 (a : Gpr)
  | storeSlot (src : Gpr) (dst : SlotHole)
  | storeImm32Slot (dst : SlotHole) (imm : BitVec 32)
  | storeImm32Hole64 (dst : SlotHole) (step : Nat)
  | loadValue (src : SlotHole)
  | storeValue (dst : SlotHole)
  | storeValueToRet
  | movqXmm0FromGpr (src : Gpr)
  | pslldqXmm0
  | pinsrdXmm0FromGpr (src : Gpr)
  | passActivation
  | argSlotHole (n : Nat) (src : SlotHole)
  | argFieldHole (n step : Nat)
  | argRet (n : Nat)
  | argConst (n : Nat) (w : BitVec 32)
  | callHelper (id : HelperId)
  | storeEaxToTrapKind
  | jccDeopt (cc : Cond)
  | jccHole (cc : Cond) (step : Nat)
  | jmpHole (step : Nat)
  | popRbp
  | ret
  deriving DecidableEq, Repr

/-- What the holes of a body are filled from: the instructions of the window, the
number of locals in front of the registers, and the word the instantiator packs
for a field reference of the pool. -/
structure Window where
  ins : Nat → Ins
  numLocals : Nat
  fieldWord : Nat → BitVec 32

namespace Window

/-- The slot of a local. -/
def localAddr (_ : Window) (i : Nat) : Addr := .slot i

/-- The slot of a register. -/
def regAddr (W : Window) (r : Nat) : Addr := .slot (W.numLocals + r)

def addrOf (W : Window) (h : SlotHole) : Addr :=
  match h.source with
  | .insDst => W.regAddr (W.ins h.step).dstReg
  | .insA => W.regAddr (W.ins h.step).aReg
  | .insB => W.regAddr (W.ins h.step).bReg
  | .frameSlot => W.localAddr (W.ins h.step).immIdx

def single (W : Window) (k : Nat) : Window := { W with ins := fun j => W.ins (k + j) }

end Window

/-- How a body is left: at its end, at a branch target, through the deopt thunk, or
back to the caller. -/
inductive Exit (σ : Type) where
  | next (s : σ)
  | jump (target : Nat) (s : σ)
  | deopt (s : σ)
  | ret (s : σ)

/-- Change the state an exit carries. -/
def Exit.map {σ τ : Type} (f : σ → τ) : Exit σ → Exit τ
  | .next s => .next (f s)
  | .jump t s => .jump t (f s)
  | .deopt s => .deopt (f s)
  | .ret s => .ret (f s)

/-- One machine operation. -/
def exec (W : Window) (op : EmitOp) (c : Cpu) : Exit Cpu :=
  match op with
  | .loadSlot32 dst src => .next (c.setGpr32 dst (c.act.payload32 (W.addrOf src)))
  | .aluSlot32 dst op src =>
    let r := op.eval (c.gpr32 dst) (c.act.payload32 (W.addrOf src))
    let c := { c with flags := r.2 }
    .next (if op = .cmp then c else c.setGpr32 dst r.1)
  | .imulSlot32 dst src => .next (c.setGpr32 dst (c.gpr32 dst * c.act.payload32 (W.addrOf src)))
  | .aluImm32 dst op imm =>
    let r := op.eval (c.gpr32 dst) imm
    let c := { c with flags := r.2 }
    .next (if op = .cmp then c else c.setGpr32 dst r.1)
  | .addEaxImm32Hole step =>
    let r := Alu.eval .add (c.gpr32 kA) (W.ins step).imm
    .next ({ c with flags := r.2 }.setGpr32 kA r.1)
  | .cmpEaxImm32Hole step =>
    .next { c with flags := (Alu.eval .cmp (c.gpr32 kA) (W.ins step).imm).2 }
  | .cmpSlotZero src =>
    .next { c with flags := (Alu.eval .cmp (c.act.payload32 (W.addrOf src)) 0).2 }
  | .movsxdReg dst src => .next (c.setGpr dst ((c.gpr32 src).signExtend 64))
  | .movRegImm32 dst imm => .next (c.setGpr32 dst imm)
  | .xorRegReg32 a => .next ({ c with flags := ⟨false, true, false, false⟩ }.setGpr32 a 0)
  | .testReg32 a => .next { c with flags := ⟨false, c.gpr32 a == 0, (c.gpr32 a).msb, false⟩ }
  | .storeSlot src dst =>
    let a := W.addrOf dst
    .next (c.setSlot a { c.act.slots a with payload := c.gpr src })
  | .storeImm32Slot dst imm =>
    let a := W.addrOf dst
    .next (c.setSlot a { c.act.slots a with tag := imm })
  | .storeImm32Hole64 dst step =>
    let a := W.addrOf dst
    .next (c.setSlot a { c.act.slots a with payload := (W.ins step).imm.signExtend 64 })
  | .loadValue src => .next { c with xmm0 := c.act.slots (W.addrOf src) }
  | .storeValue dst => .next (c.setSlot (W.addrOf dst) c.xmm0)
  | .storeValueToRet => .next (c.setSlot .ret c.xmm0)
  | .movqXmm0FromGpr src =>
    .next { c with xmm0 := ⟨(c.gpr src).setWidth 32, (c.gpr src).extractLsb' 32 32, 0⟩ }
  | .pslldqXmm0 => .next { c with xmm0 := ⟨0, 0, c.xmm0.pad ++ c.xmm0.tag⟩ }
  | .pinsrdXmm0FromGpr src => .next { c with xmm0 := { c.xmm0 with tag := c.gpr32 src } }
  | .passActivation => .next c
  | .argSlotHole n src => .next { c with args := update c.args n (.addr (W.addrOf src)) }
  | .argFieldHole n step =>
    .next { c with args :=
      Function.update c.args n (.word (W.fieldWord (W.ins step).immIdx)) }
  | .argRet n => .next { c with args := Function.update c.args n (.addr .ret) }
  | .argConst n w => .next { c with args := update c.args n (.word w) }
  | .callHelper id => .next (Fusion.callHelper c id)
  | .storeEaxToTrapKind => .next { c with act := { c.act with trapKind := c.gpr32 kA } }
  | .jccDeopt cc => if cc.holds c.flags then .deopt c else .next c
  | .jccHole cc step => if cc.holds c.flags then .jump (W.ins step).immIdx c else .next c
  | .jmpHole step => .jump (W.ins step).immIdx c
  | .popRbp => .next c
  | .ret => .ret c

/-- Run a body to its end or to the first operation that leaves it. -/
def run (W : Window) : List EmitOp → Cpu → Exit Cpu
  | [], c => .next c
  | op :: ops, c =>
    match exec W op c with
    | .next c' => run W ops c'
    | e => e

/-! ## Bodies of single instructions -/

/-- The operand holes of a body. -/
def dstAt (step : Nat) : SlotHole := ⟨.insDst, step⟩

def aAt (step : Nat) : SlotHole := ⟨.insA, step⟩

def bAt (step : Nat) : SlotHole := ⟨.insB, step⟩

def localAt (step : Nat) : SlotHole := ⟨.frameSlot, step⟩

/-- The tail of every helper call: a non-zero result leaves through the thunk. -/
def helperTail (id : HelperId) : List EmitOp :=
  [.callHelper id, .storeEaxToTrapKind, .testReg32 kA, .jccDeopt .ne]

def storeResult64 (step : Nat) (tag : BitVec 32) : List EmitOp :=
  [.storeSlot kA (dstAt step), .storeImm32Slot (dstAt step) tag]

def storeResult32 (step : Nat) : List EmitOp := .movsxdReg kA kA :: storeResult64 step kTagInt

def intBinary (op : Alu) : List EmitOp :=
  [.loadSlot32 kA (aAt 0), .aluSlot32 kA op (bAt 0)] ++ storeResult32 0

def intMul : List EmitOp :=
  [.loadSlot32 kA (aAt 0), .imulSlot32 kA (bAt 0)] ++ storeResult32 0

def branchZero (cc : Cond) : List EmitOp :=
  [.loadSlot32 kA (aAt 0), .aluImm32 kA .cmp 0, .jccHole cc 0]

def branchIcmp (cc : Cond) : List EmitOp :=
  [.loadSlot32 kA (aAt 0), .aluSlot32 kA .cmp (bAt 0), .jccHole cc 0]

/-- The sequence that returns to the caller. -/
def exitNormal : List EmitOp := [.xorRegReg32 kA, .popRbp, .ret]

/-- The body of an instruction that occurs in a window; `none` for the others. -/
def emitOpBody (op : Op) : Option (List EmitOp) :=
  match op with
  | .iconst => some [.storeImm32Slot (dstAt 0) kTagInt, .storeImm32Hole64 (dstAt 0) 0]
  | .iload | .aload => some [.loadValue (localAt 0), .storeValue (dstAt 0)]
  | .istore => some [.loadValue (aAt 0), .storeValue (localAt 0)]
  | .iadd => some (intBinary .add)
  | .isub => some (intBinary .sub)
  | .imul => some intMul
  | .iinc => some ([.loadSlot32 kA (dstAt 0), .addEaxImm32Hole 0] ++ storeResult32 0)
  | .goto => some [.jmpHole 0]
  | .ifeq => some (branchZero .e)
  | .ifne => some (branchZero .ne)
  | .iflt => some (branchZero .l)
  | .ifge => some (branchZero .ge)
  | .ifgt => some (branchZero .g)
  | .ifle => some (branchZero .le)
  | .ifIcmpeq => some (branchIcmp .e)
  | .ifIcmpne => some (branchIcmp .ne)
  | .ifIcmplt => some (branchIcmp .l)
  | .ifIcmpge => some (branchIcmp .ge)
  | .ifIcmpgt => some (branchIcmp .g)
  | .ifIcmple => some (branchIcmp .le)
  | .getfield =>
    some ([.passActivation, .argSlotHole 2 (aAt 0), .argFieldHole 3 0, .argSlotHole 4 (dstAt 0),
      .argConst 5 0] ++ helperTail .getField)
  | .arraylength =>
    some ([.passActivation, .argSlotHole 2 (aAt 0), .argSlotHole 3 (dstAt 0), .argConst 4 0,
      .argConst 5 0] ++ helperTail .arrayLength)
  | .ireturn => some ([.loadValue (aAt 0), .storeValueToRet] ++ exitNormal)
  | _ => none

/-- Run the bodies of `len` instructions from step `k` on, one after another; `none`
when one of them has no body here. -/
def runSteps (W : Window) : Nat → Nat → Cpu → Option (Exit Cpu)
  | _, 0, c => some (.next c)
  | k, len + 1, c =>
    (emitOpBody (W.ins k).op).bind fun body =>
      match run (W.single k) body c with
      | .next c' => runSteps W (k + 1) len c'
      | e => some e

/-- Build a whole int value from the accumulator and store it into a local. -/
def storeIntValueWhole (src : Gpr) (step : Nat) : List EmitOp :=
  [.movsxdReg kA src, .movqXmm0FromGpr kA, .pslldqXmm0, .movRegImm32 kB kTagInt,
    .pinsrdXmm0FromGpr kB, .storeValue (localAt step)]

/-- The operation of a fused arithmetic chain on the second local. -/
def arithSlot : Arith → EmitOp
  | .add => .aluSlot32 kA .add (localAt 1)
  | .sub => .aluSlot32 kA .sub (localAt 1)
  | .mul => .imulSlot32 kA (localAt 1)

/-- The condition of a fused test. -/
def testCc : Test → Cond
  | .eq => .e
  | .ne => .ne
  | .lt => .l
  | .ge => .ge
  | .gt => .g
  | .le => .le

/-- The body of a superinstruction. -/
def emitSuperBody (s : SuperName) : List EmitOp :=
  match s with
  | .iloadIload f => [.loadSlot32 kA (localAt 0), arithSlot f] ++ storeResult32 2
  | .iloadIloadIstore f => [.loadSlot32 kA (localAt 0), arithSlot f] ++ storeIntValueWhole kA 3
  | .iloadIincIstore => [.loadSlot32 kA (localAt 0), .addEaxImm32Hole 1] ++ storeIntValueWhole kA 2
  | .iloadIstore => [.loadValue (localAt 0), .storeValue (localAt 1)]
  | .iloadIreturn => [.loadValue (localAt 0), .storeValueToRet] ++ exitNormal
  | .iloadIf t => [.cmpSlotZero (localAt 0), .jccHole (testCc t) 1]
  | .iloadIconstIfIcmp t => [.loadSlot32 kA (localAt 0), .cmpEaxImm32Hole 1, .jccHole (testCc t) 2]
  | .aloadGetfield =>
    [.passActivation, .argSlotHole 2 (localAt 0), .argFieldHole 3 1, .argSlotHole 4 (dstAt 1)] ++
      helperTail .getField
  | .aloadArraylengthIf =>
    [.passActivation, .argSlotHole 2 (localAt 0), .argSlotHole 3 (dstAt 1)] ++
      helperTail .arrayLength ++
      [.loadSlot32 kA (aAt 2), .aluSlot32 kA .cmp (bAt 2), .jccHole .g 2]
  | .iincGoto => [.loadSlot32 kA (dstAt 0), .addEaxImm32Hole 0] ++ storeResult32 0 ++ [.jmpHole 1]
  | .aloadGetfieldIreturn =>
    [.passActivation, .argSlotHole 2 (localAt 0), .argFieldHole 3 1, .argRet 4] ++
      helperTail .getField ++ exitNormal

end B2Compiler.Codegen.Fusion
