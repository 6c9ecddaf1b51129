import B2Compiler.Passes.BuilderOrder
import B2Compiler.Passes.DescTypes

/-!
# The type analysis of the graph builder

Before it lowers a method the builder scans its structure once more, and after the block
order is known it computes the types of all slots in front of every instruction with a
worklist of its own: locals take the type of the store's opcode, loads copy the type of the
local, and an exception edge leaves an invoke only.  The frame is one vector of slots, the
locals first.
-/

namespace B2Compiler.Passes.Builder

open Lib List
open Lib.Fuel
open Rbc hiding isBranchSig canFallThrough isTerminator isLeader blockOf
  switchTargets cpAt blockPcs resultType

/-! ## The structural scan -/

/-- Slots of a frame. -/
def nSlots (m : Method) : Nat := m.numLocals + m.numRegs

def localIdx (slot : Nat) : Nat := slot

def regIdx (m : Method) (reg : Nat) : Nat := m.numLocals + reg

def kMaxSlots : Nat := 60000

def isNative (m : Method) : Bool := m.flags &&& 0x0100 != 0

/-- The signatures whose `dst` the scan compares with the register file. -/
def scansDst (s : Sig) : Bool :=
  s = .reg || s = .regImm || s = .regCp || s = .regSlot || s = .regReg || s = .regRegImm ||
    s = .regRegCp

/-- The signatures whose `a` the scan compares with the register file. -/
def scansA (s : Sig) : Bool :=
  s = .reg || s = .regReg || s = .regBranch || s = .regRegBranch || s = .regRegImm ||
    s = .regRegCp || s = .regCpBranch

def scopeMsgs : Op → List String
  | .invokedynamic => ["invokedynamic is not compilable in builder v1 (no linkage runtime)"]
  | .multianewarray =>
    ["multianewarray is not compilable in builder v1 (v0 defers multi-dim allocation)"]
  | .guardClass => ["guard_class is verifier-only in v0 and not compilable"]
  | _ => []

/-- The complaints about one instruction. -/
def scanMsgs (m : Method) (ins : Ins) : List String :=
  let sig := (info ins.op).sig
  (if scansDst sig ∧ ins.dstReg ≥ m.numRegs then
    ["dst register r" ++ toString ins.dstReg ++ " out of range"] else []) ++
  (if ins.aReg ≥ m.numRegs ∧ scansA sig then
    ["source register r" ++ toString ins.aReg ++ " out of range"] else []) ++
  (if sig = .regRegReg ∧ ins.bReg ≥ m.numRegs then
    ["source register r" ++ toString ins.bReg ++ " out of range"] else []) ++
  (if isBranchSig sig ∧ sig ≠ .regCpBranch ∧ ins.immIdx ≥ m.code.length then
    ["branch target " ++ toString ins.immIdx ++ " out of range"] else []) ++
  scopeMsgs ins.op

def budgetMsg : String := "build budget exceeded (pathological input)"

/-- The complaint about a handler. -/
def handlerMsg (h : ExceptionHandler) : String :=
  "exception handler range [" ++ toString h.start ++ "," ++ toString h.stop ++ ") handler " ++
    toString h.handler ++ " out of range"

/-- The diagnostics of the scan, each with its pc, of which the first hundred are kept; the
build goes on when there are none.  A build that is not inlined wants a graph that has its
start node only. -/
def scanStructure (m : Method) (inlined : Bool) (nodeCount : Nat) : List (Nat × String) :=
  if m.isSynchronized then
    [(0, "synchronized methods are not compilable in builder v1: the FrameState does not yet " ++
      "carry the held-monitor record deopt must reproduce (interp_contract.md section 1; " ++
      "MSG-007)")]
  else if m.isAbstract || isNative m then [(0, "abstract/native methods have no body to build")]
  else if m.code.isEmpty then [(0, "empty method body")]
  else if nSlots m = 0 ∨ nSlots m > kMaxSlots then
    [(0, "locals+registers out of builder range (" ++ toString (nSlots m) ++ ")")]
  else if inlined = false ∧ nodeCount ≠ 1 then
    [(0, "graph is not fresh (node 0 = Start expected)")]
  else
    ((range m.code.length).flatMap fun pc =>
      (if pc + 1 > kBuildBudget then [(0, budgetMsg)] else []) ++
        (scanMsgs m (codeAt m pc)).map (Prod.mk pc)) ++
    m.handlers.flatMap fun h =>
      if h.start ≥ h.stop ∨ h.stop > m.code.length ∨ h.handler ≥ m.code.length then
        [(0, handlerMsg h)] else []

/-! ## Slot types -/

@[ext]
structure SlotTypes (m : Method) where
  types : List RType
  size : types.length = nSlots m
  deriving DecidableEq

namespace SlotTypes

variable {m : Method}

def get (S : SlotTypes m) (s : Nat) : RType := S.types.getD s .bottom

def set (S : SlotTypes m) (s : Nat) (t : RType) : SlotTypes m :=
  ⟨S.types.set s t, by rw [length_set]; exact S.size⟩

def ofFn (m : Method) (f : Nat → RType) : SlotTypes m :=
  ⟨(range (nSlots m)).map f, by rw [length_map, length_range]⟩

/-- Slot-wise merge. -/
def joinWith (S T : SlotTypes m) : SlotTypes m :=
  ⟨zipWith RType.join S.types T.types, by rw [length_zipWith, S.size, T.size, min_self]⟩

instance : Min (SlotTypes m) := ⟨joinWith⟩

/-- Vectors are ordered slot by slot. -/
instance : SemilatticeInf (SlotTypes m) :=
  SemilatticeInf.mk' (fun _ _ => SlotTypes.ext (zipWith_comm_of_comm fun a b => inf_comm a b))
    (fun S T U => SlotTypes.ext (FlowState.zipWith_join_assoc S.types T.types U.types))
    (fun S => SlotTypes.ext (FlowState.zipWith_join_self S.types))

end SlotTypes

section Transfer

variable (m : Method)

/-- The slots at the entry: the receiver, the parameters, and nothing else. -/
def entryTypes : SlotTypes m :=
  let params := (parseParams m.descriptor).getD []
  let next := if m.isStatic then 0 else 1
  SlotTypes.ofFn m fun s =>
    if s < next then .ref
    else if s < m.numLocals then params.getD (s - next) .bottom else .bottom

/-- The slots at a handler: the locals of the edge and the exception in `r0`. -/
def handlerTypes {m : Method} (S : SlotTypes m) : SlotTypes m :=
  SlotTypes.ofFn m fun s =>
    if s < m.numLocals then S.get s else if s = regIdx m 0 then .ref else .bottom

def isInvokeOp : Op → Bool
  | .invokevirtual | .invokespecial | .invokestatic | .invokeinterface | .invokedynamic
  | .invokevirtualQuick | .invokespecialQuick | .invokestaticQuick | .invokeinterfaceQuick => true
  | _ => false

/-- Spelling of the wanted kind in the complaint about a pool entry. -/
def wantName : ConstKind → String
  | .fieldRef => "fieldref"
  | .methodRef => "methodref"
  | .interfaceMethodRef => "interfacemethodref"
  | .klass => "class"
  | _ => "utf8/string"

/-- The pool entry with an index, if it has the wanted kind. -/
def cpAt (idx : Nat) (want : ConstKind) : Except String Const :=
  match m.cp[idx]? with
  | none => .error ("constant pool index " ++ toString idx ++ " out of range")
  | some c =>
    if c.kind ≠ want then
      .error ("constant pool entry " ++ toString idx ++ " is " ++ c.kind.kindName ++
        ", expected " ++ wantName want)
    else .ok c

/-- The type an instruction writes to `dst`; with `bottom` the slot is left alone.  A field
access whose pool entry is not a field fails the build. -/
def resultOf (ins : Ins) (S : SlotTypes m) : Except String RType :=
  let result := (info ins.op).result
  if ins.op = .getfieldQuick then
    .ok (if ins.dstReg < m.numRegs then S.get (regIdx m ins.dstReg) else .bottom)
  else if ins.op = .ldc then
    match m.cp[ins.immIdx]? with
    | some c => .ok (if c.kind = .string ∨ c.kind = .klass then .ref else result)
    | none => .ok result
  else if ins.op = .getfield ∨ ins.op = .getstatic then
    (cpAt m ins.immIdx .fieldRef).map fun k => fieldDescType k.str3.toList
  else .ok result

/-- The type a call writes to `dst`: no diagnostic when the pool entry is not a method. -/
def callResult (ins : Ins) : RType :=
  match m.cp[ins.immIdx]? with
  | some c =>
    if c.kind = .methodRef ∨ c.kind = .interfaceMethodRef then parseReturn c.str3 else .bottom
  | none => .bottom

variable {m}

/-- Write a register, unless there is nothing to write or no such register. -/
def SlotTypes.setDst (S : SlotTypes m) (dst : Nat) (t : RType) : SlotTypes m :=
  if t ≠ .bottom ∧ dst < m.numRegs then S.set (regIdx m dst) t else S

/-- One transfer step. -/
def step (ins : Ins) (S : SlotTypes m) : SlotTypes m :=
  let oi := info ins.op
  match oi.sig with
  | .slotReg =>
    -- stores type the local by the opcode family
    if ins.immIdx < m.numLocals ∧ oi.operandA ≠ .bottom then
      S.set (localIdx ins.immIdx) oi.operandA else S
  | .regSlot =>
    if ins.dstReg < m.numRegs ∧ ins.immIdx < m.numLocals then
      S.set (regIdx m ins.dstReg) (S.get (localIdx ins.immIdx)) else S
  | .reg | .regImm | .regCp | .regReg | .regRegImm | .regRegCp | .regRegReg =>
    match resultOf m ins S with
    | .ok t => S.setDst ins.dstReg t
    | .error _ => S.setDst ins.dstReg oi.result
  | .call => S.setDst ins.dstReg (callResult m ins)
  | _ => S

/-- Does the step of an instruction record a diagnostic? -/
def stepFails (m : Method) (ins : Ins) : Bool :=
  (ins.op = .getfield || ins.op = .getstatic) &&
    match cpAt m ins.immIdx .fieldRef with
    | .ok _ => false
    | .error _ => true

end Transfer

/-! ## The worklist -/

/-- First instruction of a block. -/
def startPc (m : Method) (b : Nat) : Nat := (starts m).getD b 0

/-- The instructions of a block. -/
def blockPcs (m : Method) (b : Nat) : List Nat :=
  range' (startPc m b) ((starts m).getD (b + 1) m.code.length - startPc m b)

section Loop

variable {m : Method}

/-- The handlers an invoke at this pc can reach, each with the slots of the edge. -/
def seeds (pc : Nat) (S : SlotTypes m) : List (Nat × SlotTypes m) :=
  if isInvokeOp (codeAt m pc).op then
    (m.handlers.filter fun h =>
      decide (pc ≥ h.start) && decide (pc < h.stop) && decide (h.handler < m.code.length)).map
      fun h => (blockOf m h.handler, handlerTypes S)
  else []

/-- The slots behind a run of instructions. -/
def walk (pcs : List Nat) (S : SlotTypes m) : SlotTypes m :=
  pcs.foldl (fun S pc => step (codeAt m pc) S) S

/-- The exception edges of a run of instructions, each before the effects of its
instruction. -/
def walkSeeds : List Nat → SlotTypes m → List (Nat × SlotTypes m)
  | [], _ => []
  | pc :: pcs, S => seeds pc S ++ walkSeeds pcs (step (codeAt m pc) S)

/-- What the visit of a block pushes, in order: the exception edges of its instructions, and
the slots at its end into the successors that are reachable over normal edges. -/
def typeEdges (reachable : Nat → Bool) (b : Nat) (S : SlotTypes m) : List (Nat × SlotTypes m) :=
  walkSeeds (blockPcs m b) S ++
    ((succ m b).filter reachable).map fun t => (t, walk (blockPcs m b) S)

/-- The state of the analysis: in-states and queue, the work done, and whether a diagnostic
was recorded. -/
structure TypeFlow (m : Method) where
  wl : Worklist (SlotTypes m)
  ticks : Nat
  failed : Bool

/-- Spend `k` ticks, and record the diagnostics of the steps over `pcs`. -/
def TypeFlow.spend (st : TypeFlow m) (k : Nat) (pcs : List Nat) : TypeFlow m :=
  { st with
    ticks := st.ticks + k
    failed := st.failed || decide (st.ticks + k > kBuildBudget) ||
      pcs.any fun pc => stepFails m (codeAt m pc) }

/-- One turn of the loop: the block at the front of the queue.  A queued block has a
state. -/
def typeTurn (reachable : Nat → Bool) (st : TypeFlow m) : TypeFlow m :=
  match st.wl.queue with
  | [] => st
  | b :: queue =>
    let S := (st.wl.inAt b).getD (SlotTypes.ofFn m fun _ => .bottom)
    { st with wl := (Worklist.mk st.wl.ins queue).absorbAll (typeEdges reachable b S) }.spend
      (1 + (blockPcs m b).length) (blockPcs m b)

/-- The entry block is seeded and queued. -/
def typeStart (m : Method) (ticks : Nat) : TypeFlow m where
  wl := (Worklist.mk (replicate (starts m).length none) []).put 0 (entryTypes m)
  ticks := ticks
  failed := false

/-- `while (!queue.empty() && ok())` -/
def fixpoint (m : Method) (reachable : Nat → Bool) (ticks n : Nat) : Option (TypeFlow m) :=
  whileLoop (fun st => !st.wl.queue.isEmpty && !st.failed)
    (fun _ st => some (typeTurn reachable st)) n (typeStart m ticks)

/-- What the analysis leaves behind: the slots in front of each instruction. -/
structure Stabilized (m : Method) where
  types : Nat → SlotTypes m
  ticks : Nat
  failed : Bool

/-- The blocks whose states are written down. -/
def written (reachable : Nat → Bool) (st : TypeFlow m) : List Nat :=
  (range (starts m).length).filter fun b => (st.wl.inAt b).isSome && reachable b

/-- The states in front of the instructions of the visited blocks that are reachable over
normal edges; elsewhere every slot is `bottom`. -/
def typesBefore (reachable : Nat → Bool) (st : TypeFlow m) (pc : Nat) : SlotTypes m :=
  match st.wl.inAt (blockOf m pc) with
  | some S =>
    if reachable (blockOf m pc) then
      walk (range' (startPc m (blockOf m pc)) (pc - startPc m (blockOf m pc))) S
    else SlotTypes.ofFn m fun _ => .bottom
  | none => SlotTypes.ofFn m fun _ => .bottom

/-- The types of all slots, as far as the budget lasts. -/
def stabilizeTypes (m : Method) (reachable : Nat → Bool) (ticks n : Nat) : Option (Stabilized m) :=
  (fixpoint m reachable ticks n).map fun st =>
    let pcs := (written reachable st).flatMap (blockPcs m)
    let done := st.spend pcs.length pcs
    ⟨typesBefore reachable st, done.ticks, done.failed⟩

end Loop

end B2Compiler.Passes.Builder
