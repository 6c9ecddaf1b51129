import B2Compiler.Codegen.Archive
import B2Compiler.Codegen.SwitchChain
import B2Compiler.Baseline.PlanAudit
import B2Compiler.Lib.Overlay

/-!
# Instantiation of a plan

The instantiator lays the pieces of a method out one behind the other (entry stubs,
instances, deoptimization thunks, the shared exit), copies an archive record for each
of them and fills the holes of the copies.  A switch has no record of its own: it
becomes a chain of case templates and a copy of the `goto` record.

A piece is a copied record with what is put into its holes.  The source writes into
one buffer as it goes; here the pieces are collected first and then written in the
same order, the addresses of the helpers last, when the executable block is known.
Offsets are 32-bit words: natural numbers, reduced after every sum.
-/

namespace B2Compiler.Instantiate

open Rbc
open Baseline
open Interp (Runtime ResolvedField)
open Codegen (SwitchCases parseSwitch le32)
open Lib.X86 (Byte)
open Lib.Overlay

def u32 (n : Nat) : Nat := n % 2 ^ 32

/-! ## Results -/

inductive InstantiationStatus where
  | versionMismatch | noArchiveRecord | badHole | badBranchTarget | noDeoptCoverage
  | badSwitchTable | wxPublishFailed | budgetExceeded
  deriving DecidableEq, Repr

structure Refused where
  status : InstantiationStatus
  detail : String
  deriving DecidableEq, Repr

abbrev InstantiationResult := Except Refused

structure CodeEntry where
  nativeOffset : Nat
  rbcPc : Nat
  isMethodEntry : Bool
  deriving DecidableEq, Repr

structure RealPcEntry where
  nativeOffset : Nat
  nativeEnd : Nat
  rbcPc : Nat
  instIdx : Nat
  deriving DecidableEq, Repr

structure RealDeoptPoint where
  deoptId : Nat
  thunkOffset : Nat
  nativeOffset : Nat
  rbcPc : Nat
  reason : DeoptReason
  pendingExceptionPossible : Bool
  deriving DecidableEq, Repr

/-- The code of a method.  `code` is the staged buffer and `block` what is executed:
the same bytes with the helper addresses in place. -/
structure CompiledCode where
  code : List Byte
  block : List Byte
  pcMap : List RealPcEntry
  deoptPoints : List RealDeoptPoint
  entries : List CodeEntry
  plan : StencilPlan
  methodIndex : Nat
  methodName : String
  methodDescriptor : String
  numLocals : Nat
  numRegs : Nat
  deriving DecidableEq, Repr

/-- What the process provides: helper addresses, and whether pages can be allocated and
made executable. -/
structure Env where
  helperAddress : BitVec 8 → Option (BitVec 64)
  pageSize : Nat
  allocates : Nat → Bool
  protects : Nat → Bool

/-- The instruction a native offset belongs to: the last entry that starts at or before
it, if the offset is inside; else the first entry. -/
def CompiledCode.rbcPcAt (c : CompiledCode) (nativeOffset : Nat) : Nat :=
  let lo := bisect (fun i => ((c.pcMap[i]?).map RealPcEntry.nativeOffset).any (· ≤ nativeOffset))
    c.pcMap.length 0 c.pcMap.length
  let first := ((c.pcMap[0]?).map RealPcEntry.rbcPc).getD 0
  if lo = 0 then first
  else
    match c.pcMap[lo - 1]? with
    | some e => if nativeOffset < e.nativeEnd then e.rbcPc else first
    | none => first

/-! ## Pieces -/

/-- What is put into a hole.  Helper addresses are put in last. -/
structure Fill where
  hole : ArchiveHole
  data : List Byte
  late : Bool := false
  deriving DecidableEq, Repr

/-- A copied record and the fills of its holes. -/
structure Piece where
  base : Nat
  record : ArchiveRecord
  fills : List Fill
  deriving DecidableEq, Repr

/-- Where a hole of a piece lies in the buffer. -/
def holePos (base : Nat) (h : ArchiveHole) : Nat := u32 (base + h.codeOffset.toNat)

def Fill.write (base : Nat) (f : Fill) : Write Byte := ⟨holePos base f.hole, f.data⟩

namespace Piece

def stop (p : Piece) : Nat := p.base + p.record.code.length

/-- The copy and the fills, in order. -/
def writes (p : Piece) : List (Write Byte) :=
  ⟨p.base, p.record.code⟩ :: (p.fills.filter fun f => !f.late).map (Fill.write p.base)

def lateWrites (p : Piece) : List (Write Byte) :=
  (p.fills.filter Fill.late).map (Fill.write p.base)

end Piece

/-- The distance from behind a four-byte hole to a target. -/
def rel32 (target pos : Nat) : BitVec 32 := BitVec.ofNat 32 target - (BitVec.ofNat 32 pos + 4)

def le64 (v : BitVec 64) : List Byte := (List.range 8).map fun i => v.extractLsb' (8 * i) 8

def wordFill (h : ArchiveHole) (v : BitVec 32) : Fill := ⟨h, le32 v, false⟩

/-- A displacement from a hole to a native offset. -/
def relFill (base target : Nat) (h : ArchiveHole) : Fill :=
  wordFill h (rel32 target (holePos base h))

/-! ## Layout -/

structure Templates where
  entry : ArchiveRecord
  thunk : ArchiveRecord
  exit : ArchiveRecord
  switchCase : ArchiveRecord
  goto : ArchiveRecord

structure InstLayout where
  real : Nat
  size : Nat
  sw : Option SwitchCases

structure Layout where
  insts : List InstLayout
  thunkArea : Nat
  exitOffset : Nat
  totalSize : Nat

/-- Distinct handler entries, in the order they are first seen. -/
def handlerPcs (plan : StencilPlan) : List Nat :=
  plan.exceptionEdges.foldl
    (fun acc e => if e.handlerPc ∈ acc then acc else acc ++ [e.handlerPc]) []

def sizeInstance (m : Method) (archive : Archive) (t : Templates) (inst : StencilInstance) :
    InstantiationResult (Nat × Option SwitchCases) :=
  let rec' := archive.record inst.stencil
  if rec'.code ≠ [] then .ok (u32 rec'.code.length, none)
  else
    let ins := codeAt m inst.rbcPcStart
    if ins.op ≠ .tableswitch ∧ ins.op ≠ .lookupswitch then
      .error ⟨.noArchiveRecord, "stencil '" ++ rec'.name ++ "' at pc " ++
        toString inst.rbcPcStart ++ " has no archive body (op not instantiable in v1)"⟩
    else
      match parseSwitch m ins with
      | none =>
        .error ⟨.badSwitchTable, "switch at pc " ++ toString inst.rbcPcStart ++
          " has a malformed/oversized payload"⟩
      | some sw =>
        .ok (u32 (sw.cases.length * t.switchCase.code.length + u32 t.goto.code.length), some sw)

def sizeAll (m : Method) (archive : Archive) (t : Templates) :
    List StencilInstance → InstantiationResult (List (Nat × Option SwitchCases))
  | [] => .ok []
  | inst :: rest =>
    match sizeInstance m archive t inst with
    | .error e => .error e
    | .ok s =>
      match sizeAll m archive t rest with
      | .error e => .error e
      | .ok ss => .ok (s :: ss)

/-- Running offsets of the instances. -/
def place : Nat → List (Nat × Option SwitchCases) → List InstLayout
  | _, [] => []
  | cur, s :: rest => ⟨cur, s.1, s.2⟩ :: place (u32 (cur + s.1)) rest

/-- The offset behind the last of them. -/
def placeEnd (cur : Nat) (sizes : List (Nat × Option SwitchCases)) : Nat :=
  sizes.foldl (fun cur s => u32 (cur + s.1)) cur

def kMaxCodeBytes : Nat := 2 * 2 ^ 20

def layoutOf (m : Method) (plan : StencilPlan) (archive : Archive) (t : Templates) :
    InstantiationResult Layout :=
  match sizeAll m archive t plan.instances with
  | .error e => .error e
  | .ok sizes =>
    let entryCount := u32 (1 + u32 (handlerPcs plan).length)
    let entryArea := u32 (entryCount * u32 t.entry.code.length)
    let thunkArea := placeEnd entryArea sizes
    let exitOffset := u32 (thunkArea + plan.deoptPoints.length * u32 t.thunk.code.length)
    let totalSize := u32 (exitOffset + u32 t.exit.code.length)
    if totalSize > kMaxCodeBytes then
      .error ⟨.budgetExceeded, "code size " ++ toString totalSize ++ " exceeds budget " ++
        toString kMaxCodeBytes⟩
    else .ok ⟨place entryArea sizes, thunkArea, exitOffset, totalSize⟩

/-- The native offset of the instance that starts at an instruction. -/
def realOfPc (plan : StencilPlan) (insts : List InstLayout) (rbcPc : Nat) : Option Nat :=
  match findInstanceAt plan.instances rbcPc with
  | none => none
  | some i => (insts[i]?).map InstLayout.real

def realPoints (plan : StencilPlan) (insts : List InstLayout) (thunkSize : Nat) :
    List DeoptPoint → Nat → InstantiationResult (List RealDeoptPoint)
  | [], _ => .ok []
  | p :: rest, off =>
    match realOfPc plan insts p.rbcPc with
    | none =>
      .error ⟨.noDeoptCoverage, "deopt point pc " ++ toString p.rbcPc ++
        " has no covering instance"⟩
    | some native =>
      match realPoints plan insts thunkSize rest (u32 (off + thunkSize)) with
      | .error e => .error e
      | .ok points =>
        .ok (⟨p.deoptId, off, native, p.rbcPc, p.reason, p.pendingExceptionPossible⟩ :: points)

/-! ## Filling the holes -/

/-- What the instantiator knows while it fills holes. -/
structure Ctx where
  program : Program
  m : Method
  plan : StencilPlan
  set : StencilSet
  archive : Archive
  env : Env
  t : Templates
  layout : Layout
  points : List RealDeoptPoint

/-- Bytes of a slot, and where the payload of its value lies. -/
def kValueBytes : Nat := 16

def kPayloadDelta : Nat := 8

def kSlotsBase : Nat := 152

def slotOffset (flatIndex : Nat) : Nat := kSlotsBase + flatIndex * kValueBytes

def localOffset (localIdx : Nat) : Nat := slotOffset (u32 localIdx)

namespace Ctx

variable (c : Ctx)

def regOffset (regIdx : Nat) : Nat := slotOffset (u32 (c.plan.numLocals + regIdx))

/-- The instruction of a fusion step. -/
def insAt (inst : StencilInstance) (step : Nat) : Ins :=
  codeAt c.m (inst.rbcPcStart + if step < inst.rbcPcEnd - inst.rbcPcStart then step else 0)

def realOf (rbcPc : Nat) : Option Nat := realOfPc c.plan c.layout.insts rbcPc

def coveringPoint (inst : StencilInstance) : Option RealDeoptPoint :=
  c.points.find? fun p => p.rbcPc == inst.rbcPcStart

def findPointById (id : Nat) : Option RealDeoptPoint :=
  c.points.find? fun p => p.deoptId == id

end Ctx

def kCallFlavorShift : Nat := 28

def kStaticBuiltinBase : BitVec 32 := 0x80000000

/-- The dispatch of a call: static, virtual, special. -/
def callFlavorOf : Op → BitVec 32
  | .invokestatic | .invokestaticQuick => 0
  | .invokevirtual | .invokeinterface | .invokevirtualQuick | .invokeinterfaceQuick => 1
  | .invokespecial | .invokespecialQuick => 2
  | _ => 0

/-- The operations the holes of a fused instance can belong to. -/
def isSemanticOp : Op → Bool
  | .getfield | .putfield | .getstatic | .putstatic | .getfieldQuick | .putfieldQuick
  | .anewArray | .new | .checkcast | .instanceof | .ldc | .invokevirtual | .invokespecial
  | .invokestatic | .invokeinterface | .invokevirtualQuick | .invokespecialQuick
  | .invokestaticQuick | .invokeinterfaceQuick => true
  | _ => false

/-- The operation of an instance: the first such step, else its first instruction. -/
def semanticOp (c : Ctx) (inst : StencilInstance) : Op :=
  (((c.set.desc inst.stencil).pattern.map PatternStep.op).find? isSemanticOp).getD
    (codeAt c.m inst.rbcPcStart).op

def word (n : Nat) : BitVec 32 := BitVec.ofNat 32 n

def badHole (detail : String) : Refused := ⟨.badHole, detail⟩

def nextPlanValue (src : PatchSource) (left : List PatchValue) :
    Option (PatchValue × List PatchValue) :=
  match left.dropWhile fun pv => pv.source ≠ src with
  | [] => none
  | pv :: rest => some (pv, rest)

/-- A field of the runtime: instance offset, static id or builtin object. -/
def fieldWord (c : Ctx) (op : Op) (value : Nat) (rt : Runtime) :
    InstantiationResult (BitVec 32 × Runtime) :=
  let cref := c.m.cp.getD value {}
  if op = .getstatic ∨ op = .putstatic then
    match rt.builtinStatic cref with
    | some obj =>
      if op = .getstatic then .ok (kStaticBuiltinBase ||| word obj, rt)
      else .error (badHole "store to builtin static (T0 raises it)")
    | none =>
      match rt.resolveField cref with
      | (none, _) =>
        .error (badHole ("getstatic cp " ++ toString value ++
          " does not resolve (method stays on T0)"))
      | (some rf, rt) => .ok (word rf.id, rt)
  else
    match rt.resolveField cref with
    | (none, _) =>
      .error (badHole ("field cp " ++ toString value ++ " does not resolve (method stays on T0)"))
    | (some rf, rt) =>
      let typeBits := if op = .getfield then word rf.type.ctorIdx <<< 28 else 0
      .ok (word (rf.slot * kValueBytes) ||| typeBits, rt)

/-- The target word of a call. -/
def methodWord (c : Ctx) (op : Op) (value : Nat) : InstantiationResult (BitVec 32) :=
  let flavor := callFlavorOf op
  if flavor = 1 then .ok (flavor <<< kCallFlavorShift ||| word value)
  else
    match Runtime.resolveMethod c.program (c.m.cp.getD value {}) with
    | none =>
      .error (badHole ("call cp " ++ toString value ++
        " does not resolve to a program method (method " ++
        "stays on T0; T0 raises NoSuchMethodError)"))
    | some mid => .ok (flavor <<< kCallFlavorShift ||| word mid)

def planFill (c : Ctx) (base : Nat) (op : Op) (h : ArchiveHole) (pv : PatchValue) (rt : Runtime) :
    InstantiationResult (Fill × Runtime) :=
  match h.source with
  | .frameSlot => .ok (wordFill h (word (localOffset pv.value + h.imm.toNat)), rt)
  | .insImm =>
    if pv.kind = .methodId ∨ pv.kind = .callSiteId then
      .ok (wordFill h (callFlavorOf op <<< kCallFlavorShift ||| word pv.value), rt)
    else .ok (wordFill h (word pv.value), rt)
  | .branchTarget =>
    match c.realOf (u32 pv.value) with
    | none =>
      .error ⟨.badBranchTarget, "branch target pc " ++ toString pv.value ++
        " is not an instance start"⟩
    | some target => .ok (relFill base target h, rt)
  | .deoptIdSource =>
    match c.findPointById (u32 pv.value) with
    | none => .error ⟨.noDeoptCoverage, "deopt id " ++ toString pv.value ++ " has no deopt point"⟩
    | some p => .ok (relFill base p.thunkOffset h, rt)
  | .runtimeField =>
    match fieldWord c op pv.value rt with
    | .error e => .error e
    | .ok (v, rt) => .ok (wordFill h v, rt)
  | .runtimeClass =>
    let (id, rt) := rt.classId (c.m.cp.getD pv.value {}).str
    .ok (wordFill h (word id), rt)
  | .runtimeMethod =>
    match methodWord c op pv.value with
    | .error e => .error e
    | .ok v => .ok (wordFill h v, rt)
  | _ => .ok (wordFill h (word pv.value), rt)

/-- The fill of a hole whose value comes from the instruction stream. -/
def streamFill (c : Ctx) (inst : StencilInstance) (name : String) (h : ArchiveHole) :
    InstantiationResult Fill :=
  let ins := c.insAt inst h.step.toNat
  let operand (r : Nat) : BitVec 32 :=
    if h.kind = .slotOffset then word (c.regOffset r + h.imm.toNat) else word r
  match h.source with
  | .insDst => .ok (wordFill h (operand ins.dstReg))
  | .insA => .ok (wordFill h (operand ins.aReg))
  | .insB => .ok (wordFill h (operand ins.bReg))
  | .insImm => .ok (wordFill h ins.imm)
  | .frameSlot => .ok (wordFill h (word (localOffset ins.immIdx + h.imm.toNat)))
  | _ => .error (badHole ("unexpected stream hole source in '" ++ name ++ "'"))

/-- The constant a payload hole holds. -/
def payloadBits (c : Ctx) (inst : StencilInstance) (op : Op) : InstantiationResult (BitVec 64) :=
  match inst.patchValues.find? fun pv => pv.source = .cpIndex with
  | none => .error (badHole "constant payload hole without a cp index")
  | some pv =>
    match c.m.cp[pv.value]? with
    | none => .error (badHole "constant payload hole without a cp index")
    | some k => .ok (if op = .lconst then k.i64 else k.f64)

/-- One hole of an instance; `patchHoles` keeps the plan holes for itself. -/
def otherFill (c : Ctx) (inst : StencilInstance) (name : String) (base : Nat) (op : Op)
    (h : ArchiveHole) : InstantiationResult Fill :=
  match h.tag with
  | .plan | .stream => streamFill c inst name h
  | .helper =>
    match c.env.helperAddress h.helperId with
    | none => .error (badHole ("helper id " ++ toString h.helperId.toNat ++ " has no address"))
    | some addr => .ok ⟨h, le64 addr, true⟩
  | .layout =>
    match c.coveringPoint inst with
    | none =>
      .error ⟨.noDeoptCoverage, "trap-capable instance at pc " ++
        toString inst.rbcPcStart ++ " has no covering deopt point"⟩
    | some p => .ok (relFill base p.thunkOffset h)
  | .cpPayload =>
    match payloadBits c inst op with
    | .error e => .error e
    | .ok bits => .ok ⟨h, le64 bits, false⟩
  | .switchMatch | .switchTarget => .error (badHole "switch holes outside the switch expansion")

/-- The holes of an instance in order; `left` are the plan values not used yet. -/
def patchHoles (c : Ctx) (inst : StencilInstance) (name : String) (base : Nat) (op : Op) :
    List ArchiveHole → List PatchValue → Runtime → InstantiationResult (List Fill × Runtime)
  | [], _, rt => .ok ([], rt)
  | h :: rest, left, rt =>
    if h.tag = .plan then
      match nextPlanValue h.source left with
      | none =>
        .error (badHole ("stencil '" ++ name ++ "' pc " ++ toString inst.rbcPcStart ++
          ": no plan value for source " ++ toString h.source.ctorIdx))
      | some (pv, left) =>
        match planFill c base op h pv rt with
        | .error e => .error e
        | .ok (f, rt) =>
          match patchHoles c inst name base op rest left rt with
          | .error e => .error e
          | .ok (fs, rt) => .ok (f :: fs, rt)
    else
      match otherFill c inst name base op h with
      | .error e => .error e
      | .ok f =>
        match patchHoles c inst name base op rest left rt with
        | .error e => .error e
        | .ok (fs, rt) => .ok (f :: fs, rt)

/-- The fill of a hole of the case template. -/
def caseFill (base selOff target : Nat) (value : BitVec 32) (h : ArchiveHole) :
    InstantiationResult Fill :=
  match h.tag with
  | .stream => .ok (wordFill h (word selOff))
  | .switchMatch => .ok (wordFill h value)
  | .switchTarget => .ok (relFill base target h)
  | _ => .error (badHole "switch_case template carries an unexpected hole tag")

def caseFills (base selOff target : Nat) (value : BitVec 32) :
    List ArchiveHole → InstantiationResult (List Fill)
  | [] => .ok []
  | h :: rest =>
    match caseFill base selOff target value h with
    | .error e => .error e
    | .ok f =>
      match caseFills base selOff target value rest with
      | .error e => .error e
      | .ok fs => .ok (f :: fs)

/-- The case chain from offset `at_` on, and the jump to the default behind it. -/
def switchPieces (c : Ctx) (selOff dflt : Nat) :
    Nat → List (BitVec 32 × Nat) → InstantiationResult (List Piece)
  | at_, [] =>
    match c.realOf dflt with
    | none =>
      .error ⟨.badBranchTarget, "switch default target pc " ++ toString dflt ++
        " is not an instance start"⟩
    | some target => .ok [⟨at_, c.t.goto, c.t.goto.holes.map (relFill at_ target)⟩]
  | at_, (value, pc) :: cases =>
    match c.realOf pc with
    | none =>
      .error ⟨.badBranchTarget, "switch case target pc " ++ toString pc ++
        " is not an instance start"⟩
    | some target =>
      match caseFills at_ selOff target value c.t.switchCase.holes with
      | .error e => .error e
      | .ok fills =>
        match switchPieces c selOff dflt (u32 (at_ + c.t.switchCase.code.length)) cases with
        | .error e => .error e
        | .ok pieces => .ok (⟨at_, c.t.switchCase, fills⟩ :: pieces)

/-! ## Stages -/

/-- The pieces of one instance. -/
def instancePieces (c : Ctx) (inst : StencilInstance) (l : InstLayout) (rt : Runtime) :
    InstantiationResult (List Piece × Runtime) :=
  let rec' := c.archive.record inst.stencil
  if rec'.code = [] then
    let sw := l.sw.getD ⟨[], 0⟩
    let selOff := c.regOffset (codeAt c.m inst.rbcPcStart).aReg + kPayloadDelta
    match switchPieces c selOff sw.defaultTarget l.real sw.cases with
    | .error e => .error e
    | .ok pieces => .ok (pieces, rt)
  else
    match patchHoles c inst rec'.name l.real (semanticOp c inst) rec'.holes inst.patchValues rt with
    | .error e => .error e
    | .ok (fills, rt) => .ok ([⟨l.real, rec', fills⟩], rt)

def allInstances (c : Ctx) : List (StencilInstance × InstLayout) → Runtime →
    InstantiationResult (List Piece × Runtime)
  | [], rt => .ok ([], rt)
  | (inst, l) :: rest, rt =>
    match instancePieces c inst l rt with
    | .error e => .error e
    | .ok (ps, rt) =>
      match allInstances c rest rt with
      | .error e => .error e
      | .ok (qs, rt) => .ok (ps ++ qs, rt)

/-- An entry stub at offset `at_` for the instance that starts at `pc`. -/
def entryPiece (c : Ctx) (at_ pc : Nat) : InstantiationResult (Piece × CodeEntry) :=
  match c.realOf pc with
  | none => .error ⟨.badBranchTarget, "handler pc " ++ toString pc ++ " is not an instance start"⟩
  | some target =>
    .ok (⟨at_, c.t.entry, c.t.entry.holes.map (relFill at_ target)⟩, ⟨at_, pc, false⟩)

def handlerPieces (c : Ctx) : Nat → List Nat → InstantiationResult (List (Piece × CodeEntry))
  | _, [] => .ok []
  | at_, pc :: rest =>
    match entryPiece c at_ pc with
    | .error e => .error e
    | .ok p =>
      match handlerPieces c (u32 (at_ + u32 c.t.entry.code.length)) rest with
      | .error e => .error e
      | .ok ps => .ok (p :: ps)

/-- The method entry and the stubs of the handlers. -/
def entryPieces (c : Ctx) : InstantiationResult (List (Piece × CodeEntry)) :=
  match c.realOf 0 with
  | none => .error ⟨.badBranchTarget, "method entry target unresolved (empty plan?)"⟩
  | some target =>
    match handlerPieces c (u32 c.t.entry.code.length) (handlerPcs c.plan) with
    | .error e => .error e
    | .ok ps => .ok ((⟨0, c.t.entry, c.t.entry.holes.map (relFill 0 target)⟩, ⟨0, 0, true⟩) :: ps)

/-- The thunk of a point: its id, its site, and the jump to the shared exit. -/
def thunkPiece (c : Ctx) (p : RealDeoptPoint) : InstantiationResult Piece :=
  match c.t.thunk.holes with
  | [h₀, h₁, h₂] =>
    .ok ⟨p.thunkOffset, c.t.thunk, [wordFill h₀ (word p.deoptId), wordFill h₁ (word p.nativeOffset),
        relFill p.thunkOffset c.layout.exitOffset h₂]⟩
  | _ => .error (badHole "__deopt_thunk template must carry 3 holes")

def thunkPieces (c : Ctx) : List RealDeoptPoint → InstantiationResult (List Piece)
  | [] => .ok []
  | p :: rest =>
    match thunkPiece c p with
    | .error e => .error e
    | .ok q =>
      match thunkPieces c rest with
      | .error e => .error e
      | .ok qs => .ok (q :: qs)

/-- Everything that is copied and filled. -/
structure Staged where
  pieces : List Piece
  entries : List CodeEntry

/-- The pieces of a method: entries, instances, thunks, exit. -/
def stage (c : Ctx) (rt : Runtime) : InstantiationResult (Staged × Runtime) :=
  match entryPieces c with
  | .error e => .error e
  | .ok entries =>
    match allInstances c (c.plan.instances.zip c.layout.insts) rt with
    | .error e => .error e
    | .ok (bodies, rt) =>
      match thunkPieces c c.points with
      | .error e => .error e
      | .ok thunks =>
        .ok (⟨entries.map Prod.fst ++ (bodies ++ (thunks ++
          [⟨c.layout.exitOffset, c.t.exit, []⟩])), entries.map Prod.snd⟩, rt)

/-- The buffer after all pieces but the helper addresses. -/
def staging (total : Nat) (pieces : List Piece) : List Byte :=
  writeAll (List.replicate total 0xCC) (pieces.flatMap Piece.writes)

/-- The pc map in native terms. -/
def realPcMap (plan : StencilPlan) (insts : List InstLayout) : List RealPcEntry :=
  (plan.instances.zip insts).zipIdx.map fun p =>
    ⟨p.1.2.real, u32 (p.1.2.real + p.1.2.size), p.1.1.rbcPcStart, p.2⟩

def publish (c : Ctx) (index : Nat) (s : Staged) : CompiledCode :=
  let code := staging c.layout.totalSize s.pieces
  { code := code
    block := writeAll code (s.pieces.flatMap Piece.lateWrites)
    pcMap := realPcMap c.plan c.layout.insts
    deoptPoints := c.points
    entries := s.entries
    plan := c.plan
    methodIndex := index
    methodName := c.m.name
    methodDescriptor := c.m.descriptor
    numLocals := c.plan.numLocals
    numRegs := c.plan.numRegs }

/-- The internal templates and the `goto` record. -/
def templatesOf (set : StencilSet) (archive : Archive) : InstantiationResult Templates :=
  match archive.internal kInternalEntry, archive.internal kInternalDeoptThunk,
    archive.internal kInternalDeoptExit, archive.internal kInternalSwitchCase with
  | some entry, some thunk, some exit, some switchCase =>
    let gotoId := findStencil set "goto"
    if gotoId = 0 ∨ (archive.record gotoId).code = [] then
      .error ⟨.noArchiveRecord, "the manifest 'goto' record is missing/empty"⟩
    else .ok ⟨entry, thunk, exit, switchCase, archive.record gotoId⟩
  | _, _, _, _ => .error ⟨.noArchiveRecord, "internal template missing from the archive"⟩

/-- The version gates. -/
def versionError (plan : StencilPlan) (set : StencilSet) (archive : Archive) : Option Refused :=
  if plan.setVersion.magic ≠ set.version.magic ∨ plan.setVersion.version ≠ set.version.version then
    some ⟨.versionMismatch, "plan set version " ++ toString plan.setVersion.version ++
      " != set version " ++ toString set.version.version⟩
  else if archive.header.magic ≠ kStencilArchiveMagic ∨
      archive.header.version ≠ kStencilArchiveVersion ∨
      archive.header.targetArch ≠ kTargetArchX86_64 ∨ archive.header.abiHash ≠ kT1AbiHashV1 then
    some ⟨.versionMismatch, "archive identity mismatch"⟩
  else if archive.header.manifestCount ≠ set.stencils.length ∨
      archive.records.length < archive.header.manifestCount then
    some ⟨.versionMismatch, "archive/set record misalignment"⟩
  else none

/-- Everything known before the first byte is copied. -/
def context (program : Program) (m : Method) (plan : StencilPlan) (set : StencilSet)
    (archive : Archive) (env : Env) : InstantiationResult Ctx :=
  match templatesOf set archive with
  | .error e => .error e
  | .ok t =>
    match layoutOf m plan archive t with
    | .error e => .error e
    | .ok layout =>
      match realPoints plan layout.insts (u32 t.thunk.code.length) plan.deoptPoints
        layout.thunkArea with
      | .error e => .error e
      | .ok points => .ok ⟨program, m, plan, set, archive, env, t, layout, points⟩

/-- Turn a plan into executable code, or refuse. -/
def instantiate (program : Program) (index : Nat) (plan : StencilPlan) (set : StencilSet)
    (archive : Archive) (env : Env) (rt : Runtime) :
    InstantiationResult (CompiledCode × Runtime) :=
  match program.methods[index]? with
  | none => .error ⟨.versionMismatch, "method index " ++ toString index ++ " out of range"⟩
  | some m =>
    match versionError plan set archive with
    | some e => .error e
    | none =>
      match context program m plan set archive env with
      | .error e => .error e
      | .ok c =>
        match stage c rt with
        | .error e => .error e
        | .ok (s, rt) =>
          let allocSize := (c.layout.totalSize + env.pageSize - 1) / env.pageSize *
            env.pageSize
          if !env.allocates allocSize then
            .error ⟨.wxPublishFailed, "code page allocation failed (" ++
              toString allocSize ++ " bytes)"⟩
          else if !env.protects allocSize then
            .error ⟨.wxPublishFailed, "mprotect(PROT_READ|PROT_EXEC) failed"⟩
          else .ok (publish c index s, rt)

end B2Compiler.Instantiate
