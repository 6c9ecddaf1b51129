import B2Compiler.Rbc.Verifier
import B2Compiler.Lib.Sweep

/-!
# The fusion guard of the tier-1 plan builder

The plan builder walks a verified method once and covers it with stencils.  A
superinstruction covers a window of several instructions and may leave the
results of some of them in machine registers, so a window is fused only under the
guard below: the opcodes and the declared producer-consumer links match, no other
read looks at a skipped register, the skipped registers are dead behind the
window by a backward liveness analysis, and no control transfer enters the
window.  The source packs register sets into words of 64 bits; here they are
finite sets.
-/

namespace B2Compiler.Baseline

open Rbc
open Lib.Sweep (setAt solve)

/-! ## Superinstructions -/

/-- One step of a pattern.  A link names an earlier step: the one whose `dst` feeds
operand `a` or `b`, or has to be this step's `dst`. -/
structure PatternStep where
  op : Op
  useAsA : Option Nat := none
  useAsB : Option Nat := none
  thenDstOf : Option Nat := none
  deriving DecidableEq, Repr

/-- The operation in the middle of a fused arithmetic chain. -/
inductive Arith where
  | add | sub | mul
  deriving DecidableEq, Repr

/-- The comparison at the end of a fused test. -/
inductive Test where
  | eq | ne | lt | ge | gt | le
  deriving DecidableEq, Repr

/-- The superinstructions of the builtin manifest.  The source tells them apart by
the text of their names. -/
inductive SuperName where
  | iloadIload (f : Arith)
  | aloadGetfield
  | aloadArraylengthIf
  | iincGoto
  | aloadGetfieldIreturn
  | iloadIloadIstore (f : Arith)
  | iloadIincIstore
  | iloadIstore
  | iloadIreturn
  | iloadIf (t : Test)
  | iloadIconstIfIcmp (t : Test)
  deriving DecidableEq, Repr

/-- A superinstruction: its pattern, and the steps whose `dst` the fused body does
not write. -/
structure StencilDesc where
  name : SuperName
  pattern : List PatternStep
  dstSkipMask : BitVec 8
  deriving DecidableEq, Repr

def Arith.op : Arith → Op
  | .add => .iadd
  | .sub => .isub
  | .mul => .imul

def Test.ifOp : Test → Op
  | .eq => .ifeq
  | .ne => .ifne
  | .lt => .iflt
  | .ge => .ifge
  | .gt => .ifgt
  | .le => .ifle

def Test.ifIcmpOp : Test → Op
  | .eq => .ifIcmpeq
  | .ne => .ifIcmpne
  | .lt => .ifIcmplt
  | .ge => .ifIcmpge
  | .gt => .ifIcmpgt
  | .le => .ifIcmple

/-- Pattern and mask of a superinstruction. -/
def superSpec (s : SuperName) : StencilDesc :=
  match s with
  | .iloadIload f =>
    ⟨s, [{ op := .iload }, { op := .iload }, { op := f.op, useAsA := some 0, useAsB := some 1 }],
      0x03⟩
  | .aloadGetfield => ⟨s, [{ op := .aload }, { op := .getfield, useAsA := some 0 }], 0x01⟩
  | .aloadArraylengthIf =>
    ⟨s, [{ op := .aload }, { op := .arraylength, useAsA := some 0 },
      { op := .ifIcmpgt, useAsA := some 1 }], 0x01⟩
  | .iincGoto => ⟨s, [{ op := .iinc }, { op := .goto }], 0x00⟩
  | .aloadGetfieldIreturn =>
    ⟨s, [{ op := .aload }, { op := .getfield, useAsA := some 0 },
      { op := .ireturn, useAsA := some 1 }], 0x03⟩
  | .iloadIloadIstore f =>
    ⟨s, [{ op := .iload }, { op := .iload }, { op := f.op, useAsA := some 0, useAsB := some 1 },
      { op := .istore, useAsA := some 2 }], 0x07⟩
  | .iloadIincIstore =>
    ⟨s, [{ op := .iload }, { op := .iinc, thenDstOf := some 0 },
      { op := .istore, useAsA := some 1 }], 0x03⟩
  | .iloadIstore => ⟨s, [{ op := .iload }, { op := .istore, useAsA := some 0 }], 0x01⟩
  | .iloadIreturn => ⟨s, [{ op := .iload }, { op := .ireturn, useAsA := some 0 }], 0x01⟩
  | .iloadIf t => ⟨s, [{ op := .iload }, { op := t.ifOp, useAsA := some 0 }], 0x01⟩
  | .iloadIconstIfIcmp t =>
    ⟨s, [{ op := .iload }, { op := .iconst },
      { op := t.ifIcmpOp, useAsA := some 0, useAsB := some 1 }], 0x03⟩

/-- The superinstructions in the order of the manifest. -/
def kSuperSpecs : List StencilDesc :=
  [.iloadIload .add, .iloadIload .sub, .iloadIload .mul, .aloadGetfield, .aloadArraylengthIf,
    .iincGoto, .aloadGetfieldIreturn, .iloadIloadIstore .add, .iloadIloadIstore .sub,
    .iloadIloadIstore .mul, .iloadIincIstore, .iloadIstore, .iloadIreturn, .iloadIf .eq,
    .iloadIf .ne, .iloadIf .lt, .iloadIf .ge, .iloadIf .gt, .iloadIf .le,
    .iloadIconstIfIcmp .eq, .iloadIconstIfIcmp .ne, .iloadIconstIfIcmp .lt,
    .iloadIconstIfIcmp .ge, .iloadIconstIfIcmp .gt, .iloadIconstIfIcmp .le].map superSpec

/-- A target word that lies inside the code or right behind it. -/
def markTarget (n : Nat) (t : BitVec 32) : Option Nat :=
  if 0 ≤ t.toInt ∧ t.toNat < n + 1 then some t.toNat else none

/-- Every second entry from the third on: the targets of a lookup payload. -/
def pairTargets : List (BitVec 32) → List (BitVec 32)
  | _ :: t :: rest => t :: pairTargets rest
  | _ => []

/-- The target words of a switch payload, the default included. -/
def payloadTargets (op : Op) (v : List (BitVec 32)) : List (BitVec 32) :=
  if op = .tableswitch then
    if v.length < 3 then [] else v.drop 2
  else if v.length < 2 then [] else v.getD 1 0 :: pairTargets (v.drop 2)

/-- The pcs some control transfer of the method can go to. -/
def markControlTargets (m : Method) : List Nat :=
  m.code.flatMap fun ins =>
    let sig := (info ins.op).sig
    if sig = .branch ∨ sig = .regBranch ∨ sig = .regRegBranch then
      (markTarget m.code.length ins.imm).toList
    else if sig = .regCpBranch then
      match m.cp[ins.immIdx]? with
      | none => []
      | some c => (payloadTargets ins.op c.ints).filterMap (markTarget m.code.length)
    else []

/-- The pcs that must not lie strictly inside a fused window: control targets,
handler boundaries and handler entries. -/
def computeFusionBlocked (m : Method) : List Nat :=
  markControlTargets m ++
    (m.handlers.flatMap fun h => [h.start, h.stop, h.handler]).filter (· < m.code.length + 1)

def isArrayStoreOp : Op → Bool
  | .iastore | .lastore | .fastore | .dastore | .aastore | .bastore | .castore | .sastore => true
  | _ => false

/-- The registers `a .. a + b - 1`, as sixteen-bit numbers. -/
def argRegs (ins : Ins) : List Nat :=
  (List.range ins.bReg).map fun k => (ins.aReg + k) % 2 ^ 16

/-- The registers an instruction reads. -/
def appendRegReads (ins : Ins) : List Nat :=
  match (info ins.op).sig with
  | .none | .branch | .trap | .regSlot => []
  | .reg | .regBranch | .regCpBranch => [ins.aReg]
  | .slotReg | .regReg | .regRegImm | .regRegCp => [ins.aReg]
  | .regImm => if ins.op = .iinc then [ins.dstReg] else []
  | .regCp => if ins.op = .putstatic then [ins.dstReg] else []
  | .regRegReg =>
    if isArrayStoreOp ins.op then [ins.dstReg, ins.aReg, ins.bReg]
    else [ins.aReg, ins.bReg]
  | .regRegRegCp => if ins.op = .multianewarray then argRegs ins else [ins.aReg, ins.bReg]
  | .regRegBranch => [ins.aReg, ins.bReg]
  | .call | .callQuick => argRegs ins
  | .guard | .guardCp => [ins.aReg]

/-- Does an instruction define its `dst` register? -/
def definesDst (ins : Ins) : Bool :=
  match (info ins.op).sig with
  | .regSlot | .regReg | .regRegReg | .regImm | .regCp | .regRegImm | .regRegCp
  | .regRegRegCp => !isArrayStoreOp ins.op && ins.op ≠ .putstatic && ins.op ≠ .putfield
  | _ => false

/-- A successor: kept when it is an instruction, and narrowed to sixteen bits. -/
def addSucc (n t : Nat) : List Nat := if t < n then [t % 2 ^ 16] else []

/-- The normal successors of an instruction as the analysis records them. -/
def succs (m : Method) (p : Nat) : List Nat :=
  let ins := codeAt m p
  let n := m.code.length
  match (info ins.op).sig with
  | .branch => addSucc n ins.immIdx
  | .regBranch | .regRegBranch => addSucc n ins.immIdx ++ addSucc n (p + 1)
  | .regCpBranch =>
    match switchPayload m ins with
    | none => []
    | some tbl =>
      if tbl.length ≥ 3 then
        if ins.op = .tableswitch then (tbl.drop 2).flatMap fun t => addSucc n t.toNat
        else addSucc n (tbl.getD 1 0).toNat ++
          (pairTargets (tbl.drop 2)).flatMap fun t => addSucc n t.toNat
      else []
  | .reg =>
    -- returns and `athrow` end the path
    if ins.op ≠ .monitorenter ∧ ins.op ≠ .monitorexit then [] else addSucc n (p + 1)
  | .trap => []
  | _ => addSucc n (p + 1)

/-- The registers live before an instruction, from the sets of its successors. -/
def liveTransfer (m : Method) (p : Nat) (live : Nat → Finset Nat) : Finset Nat :=
  let ins := codeAt m p
  let after := (succs m p).foldr (fun s acc => live s ∪ acc) ∅
  let after := if definesDst ins then after.erase ins.dstReg else after
  (appendRegReads ins).foldr insert after

/-- Passes the iteration can take: one for each register of each instruction that
can become live, and the last one. -/
def livenessBudget (m : Method) : Nat :=
  m.code.length * (m.code.flatMap appendRegReads).toFinset.card + 1

/-- The registers live before each instruction: passes in reverse order from empty
sets until nothing changes. -/
def computeLiveness (m : Method) : Option (List (Finset Nat)) :=
  solve (liveTransfer m) m.code.length (livenessBudget m) (List.replicate m.code.length ∅)

/-! ## Matching -/

def kMaxPattern : Nat := 8

/-- A declared link: the earlier step writes the register, and no step between the
two rewrites it. -/
def linkHolds (m : Method) (pc k reg : Nat) : Option Nat → Bool
  | none => true
  | some link =>
    link < k && (codeAt m (pc + link)).dstReg == reg && (List.range k).all fun mid =>
        !(link < mid && (codeAt m (pc + mid)).dstReg == reg)

/-- The registers a window step reads from their slots. -/
def stepReads (ins : Ins) : List Nat :=
  match (info ins.op).sig with
  | .reg | .regBranch | .regCpBranch | .slotReg | .regReg | .regRegImm | .regRegCp | .guard
  | .guardCp => [ins.aReg]
  | .regRegReg | .regRegBranch | .regRegRegCp => [ins.aReg, ins.bReg]
  | .regImm => if ins.op = .iinc then [ins.dstReg] else []
  | _ => []

/-- Does a read that no link supplies look at a skipped earlier result? -/
def readsSkipped (cand : StencilDesc) (m : Method) (pc k : Nat) (step : PatternStep) : Bool :=
  let ins := codeAt m (pc + k)
  (step.useAsA.isNone || step.useAsB.isNone) && (stepReads ins).any fun reg =>
      !(step.useAsA.isSome && reg == ins.aReg) && !(step.useAsB.isSome && reg == ins.bReg) &&
        !(step.thenDstOf.isSome && reg == ins.dstReg) &&
        (List.range k).any fun j =>
          cand.dstSkipMask.getLsbD j && (codeAt m (pc + j)).dstReg == reg

/-- The checks of one window step. -/
def stepMatches (cand : StencilDesc) (m : Method) (pc k : Nat) (step : PatternStep) : Bool :=
  let ins := codeAt m (pc + k)
  ins.op == step.op && linkHolds m pc k ins.aReg step.useAsA &&
    linkHolds m pc k ins.bReg step.useAsB && linkHolds m pc k ins.dstReg step.thenDstOf &&
    !readsSkipped cand m pc k step

/-- May the window at `pc` be fused?  `blocked` and `live` are the results of
`computeFusionBlocked` and `computeLiveness`. -/
def matchSuper (cand : StencilDesc) (m : Method) (pc : Nat) (blocked : List Nat)
    (live : List (Finset Nat)) : Bool :=
  let len := cand.pattern.length
  len ≠ 0 && len ≤ kMaxPattern && pc + len ≤ m.code.length &&
    (cand.pattern.zipIdx.all fun s => stepMatches cand m pc s.2 s.1) &&
    ((List.range len).all fun k =>
      !(cand.dstSkipMask.getLsbD k &&
        decide ((codeAt m (pc + k)).dstReg ∈ setAt live (pc + len)))) &&
    ((List.range len).all fun t => t == 0 || !blocked.contains (pc + t))

end B2Compiler.Baseline
