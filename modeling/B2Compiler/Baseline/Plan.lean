import B2Compiler.Baseline.StencilSet
import Mathlib.Data.List.Sort

/-!
# The stencil plan: builder and auditor

The plan builder covers a verified method with stencils in one scan, longest match
first, and derives from the instances the maps the runtime asks for: native offsets
to instruction indices, safepoints, deoptimization points and exception edges.
`verifyPlan` audits a plan against the method and the set without looking at how it
was built, and the builder ends by auditing its own result.

Counters and offsets of 32 bits are natural numbers reduced after every addition
that can carry.  Instruction indices need no reduction: the verifier turns down a
method that 32 bits cannot index.
-/

namespace B2Compiler.Baseline

open Rbc
open Lib.Sweep (setAt)

/-! ## Plan records -/

structure PatchValue where
  site : Nat
  kind : PatchKind
  source : PatchSource
  value : Nat
  pendingRuntime : Bool
  deriving DecidableEq, Repr

/-- One copied stencil, covering the instructions `[rbcPcStart, rbcPcEnd)`. -/
structure StencilInstance where
  stencil : Nat
  outputOffset : Nat
  outputSize : Nat
  rbcPcStart : Nat
  rbcPcEnd : Nat
  patchValues : List PatchValue
  excCovers : List Nat
  deriving DecidableEq, Repr

structure PcMapEntry where
  nativeOffset : Nat
  rbcPc : Nat
  instIdx : Nat
  deriving DecidableEq, Repr

inductive StackMapKind where
  | poll | call | trap
  deriving DecidableEq, Repr

structure StackMapPoint where
  nativeOffset : Nat
  rbcPc : Nat
  kind : StackMapKind
  deoptPoint : Nat
  deriving DecidableEq, Repr

inductive DeoptReason where
  | trap | guard | callException | uncommon
  deriving DecidableEq, Repr

structure DeoptPoint where
  deoptId : Nat
  nativeOffset : Nat
  rbcPc : Nat
  reason : DeoptReason
  pendingExceptionPossible : Bool
  stackMap : Nat
  deriving DecidableEq, Repr

structure ExceptionEdge where
  start : Nat
  stop : Nat
  handlerPc : Nat
  catchType : Int
  nativeHandler : Nat
  deriving DecidableEq, Repr

structure StencilPlan where
  methodIndex : Nat
  methodName : String
  methodDescriptor : String
  methodStatic : Bool
  numRegs : Nat
  numLocals : Nat
  setVersion : StencilSetVersion
  instances : List StencilInstance
  pcMap : List PcMapEntry
  stackMaps : List StackMapPoint
  deoptPoints : List DeoptPoint
  exceptionEdges : List ExceptionEdge
  entryNativeOffset : Nat
  codeSize : Nat
  fusionCount : Nat
  patchCount : Nat
  safepointCount : Nat
  deriving DecidableEq, Repr

/-- Ids from here on are allocated by the plan. -/
def kPlanAllocatedDeoptIdBase : Nat := 0x80000000

/-- "No link" between a stack map and a deoptimization point. -/
def kNoLink32 : Nat := 0xFFFFFFFF

/-- Ceilings; hitting one refuses the plan. -/
structure PlanBudget where
  maxInstances : Nat := 65536
  maxOutputBytes : Nat := 2 ^ 20
  maxPatches : Nat := 262144
  maxDeoptPoints : Nat := 65536
  maxFusions : Nat := 16384
  deriving DecidableEq, Repr

structure CompileOptions where
  superinstructions : Bool := true
  requireBackedgePolls : Bool := true
  budget : PlanBudget := {}
  deriving DecidableEq, Repr

inductive RefuseReason where
  | unverifiableMethod | noStencilForOp | missingBackedgePoll | badOperandRange
  | budgetExceeded | internalInvariant
  deriving DecidableEq, Repr

structure Refusal where
  reason : RefuseReason
  detail : String
  deriving DecidableEq, Repr

/-- The outcome of the builder: a plan, or a refusal with its diagnostics. -/
abbrev PlanResult := Except Refusal

/-- The step that supplies the next hole of a source, from the cursor on; the length
of the pattern when there is none. -/
def supplier (pattern : List PatternStep) (src : PatchSource) (pos : Nat) : Nat :=
  if src = .deoptIdSource ∨ src = .none then pattern.length
  else pos + (pattern.drop pos).findIdx fun s => stepSuppliesSource src s.op

/-- Value and pending mark of a hole whose supplying step stands at `at_`. -/
def sourceValue (src : PatchSource) (ins : Ins) (at_ deoptId : Nat) : Nat × Bool :=
  match src with
  | .insDst => (ins.dstReg, false)
  | .insA => (ins.aReg, false)
  | .insB => (ins.bReg, false)
  | .insImm | .frameSlot | .cpIndex | .branchTarget => (ins.immIdx, false)
  | .deoptIdSource => (deoptId, false)
  | .runtimeField | .runtimeClass | .runtimeMethod | .runtimeHelper => (ins.immIdx, true)
  | .runtimeIcStub => (at_, true)
  | .none => (0, false)

def holeValue (desc : Stencil) (m : Method) (pc deoptId : Nat) (hole : PatchSiteDesc)
    (step : Nat) : Nat × Bool :=
  if step = desc.pattern.length ∧ hole.source ≠ .deoptIdSource ∧ hole.source ≠ .none then
    (0, false)
  else
    let at_ := pc + (if step < desc.pattern.length then step else 0)
    sourceValue hole.source (codeAt m at_) at_ deoptId

/-- Fill the holes from number `k` on.  The cursors say for each source which steps
have been used. -/
def fillHoles (desc : Stencil) (m : Method) (pc deoptId : Nat) :
    List PatchSiteDesc → Nat → (PatchSource → Nat) → PlanResult (List PatchValue)
  | [], _, _ => .ok []
  | hole :: rest, k, cursor =>
    let step := supplier desc.pattern hole.source (cursor hole.source)
    let next := if step < desc.pattern.length then step + 1 else step
    let v := holeValue desc m pc deoptId hole step
    if fitsWidth v.1 hole.width then
      match fillHoles desc m pc deoptId rest (k + 1) (Function.update cursor hole.source next) with
      | .error e => .error e
      | .ok values => .ok (⟨k, hole.kind, hole.source, v.1, v.2⟩ :: values)
    else
      .error ⟨.badOperandRange, "pc " ++ toString pc ++ " stencil " ++ desc.name ++
        " patch site " ++ toString k ++ ": value " ++ toString v.1 ++ " exceeds hole width " ++
        toString hole.width⟩

/-- The patch values of an instance, one for each declared hole. -/
def fillPatchValues (desc : Stencil) (m : Method) (pc deoptId : Nat) :
    PlanResult (List PatchValue) :=
  fillHoles desc m pc deoptId desc.patches 0 fun _ => 0

/-! ## The scan -/

structure ScanState where
  instances : List StencilInstance := []
  instanceDeopt : List (Option Nat) := []
  outOffset : Nat := 0
  fusionCount : Nat := 0
  patchTotal : Nat := 0
  deoptCount : Nat := 0
  nextPlanDeoptId : Nat := kPlanAllocatedDeoptIdBase
  seenRbcDeoptIds : List (Nat × Nat) := []
  deriving DecidableEq, Repr

def overBudget (what : String) (limit current : Nat) : Refusal :=
  ⟨.budgetExceeded, what ++ " limit=" ++ toString limit ++ " current=" ++ toString current⟩

def getsDeopt (s : Stencil) : Bool := hasFlag s.flags .hasDeopt || hasFlag s.flags .canTrap

/-- The ceilings, in the order the source tests them. -/
def checkBudget (st : ScanState) (winner : Stencil) (budget : PlanBudget) : Option Refusal :=
  let out := (st.outOffset + winner.nominalSize.toNat) % 2 ^ 32
  let patches := (st.patchTotal + winner.patches.length) % 2 ^ 32
  let deopts := (st.deoptCount + 1) % 2 ^ 32
  let fusions := (st.fusionCount + 1) % 2 ^ 32
  if st.instances.length + 1 > budget.maxInstances then
    some (overBudget "max_instances" budget.maxInstances (st.instances.length + 1))
  else if out > budget.maxOutputBytes then
    some (overBudget "max_output_bytes" budget.maxOutputBytes out)
  else if patches > budget.maxPatches then
    some (overBudget "max_patches" budget.maxPatches patches)
  else if getsDeopt winner ∧ deopts > budget.maxDeoptPoints then
    some (overBudget "max_deopt_points" budget.maxDeoptPoints deopts)
  else if winner.pattern.length > 1 ∧ fusions > budget.maxFusions then
    some (overBudget "max_fusions" budget.maxFusions fusions)
  else none

/-- Does the instruction carry a deoptimization id of its own? -/
def declaresDeopt (sig : Sig) : Bool := sig = .guard ∨ sig = .guardCp ∨ sig = .trap

/-- The id an instruction declares. -/
def streamDeoptId (ins : Ins) : Nat :=
  if (info ins.op).sig = .guardCp then ins.bReg else ins.immIdx

/-- The deoptimization id of an instance at `pc`, and the state after taking it.  The
list of declared ids is kept sorted. -/
def takeDeoptId (st : ScanState) (m : Method) (pc : Nat) : PlanResult (Nat × ScanState) :=
  let ins := codeAt m pc
  let count := (st.deoptCount + 1) % 2 ^ 32
  if declaresDeopt (info ins.op).sig then
    let id := streamDeoptId ins
    if id ≥ kPlanAllocatedDeoptIdBase then
      .error ⟨.badOperandRange, "pc " ++ toString pc ++ ": rbc deopt id " ++ toString id ++
        " exceeds the rbc-declared id ceiling " ++ toString (kPlanAllocatedDeoptIdBase - 1)⟩
    else
      let before := st.seenRbcDeoptIds.takeWhile fun p => p.1 < id
      let after := st.seenRbcDeoptIds.dropWhile fun p => p.1 < id
      match after with
      | p :: _ =>
        if p.1 = id then
          .error ⟨.internalInvariant, "pc " ++ toString pc ++ ": duplicate rbc deopt id " ++
            toString id ++ " (first declared at pc " ++ toString p.2 ++ ")"⟩
        else
          .ok (id, { st with seenRbcDeoptIds := before ++ (id, pc) :: after,
                             deoptCount := count })
      | [] => .ok (id, { st with seenRbcDeoptIds := before ++ [(id, pc)], deoptCount := count })
  else
    .ok (st.nextPlanDeoptId, { st with nextPlanDeoptId := (st.nextPlanDeoptId + 1) % 2 ^ 32,
                                       deoptCount := count })

/-- The handlers whose range contains `[pc, pc + len)`, as sixteen-bit indices. -/
def coveringHandlers (m : Method) (pc len : Nat) : List Nat :=
  (m.handlers.zipIdx.filter fun h => h.1.start ≤ pc ∧ pc + len ≤ h.1.stop).map
    fun h => h.2 % 2 ^ 16

def mkInstance (st : ScanState) (winner : Stencil) (m : Method) (pc : Nat)
    (values : List PatchValue) : StencilInstance where
  stencil := winner.id
  outputOffset := st.outOffset
  outputSize := winner.nominalSize.toNat
  rbcPcStart := pc
  rbcPcEnd := pc + winner.pattern.length
  patchValues := values
  excCovers := coveringHandlers m pc winner.pattern.length

def emitInstance (st : ScanState) (winner : Stencil) (m : Method) (pc : Nat)
    (options : CompileOptions) : PlanResult ScanState :=
  match checkBudget st winner options.budget with
  | some e => .error e
  | none =>
    match if getsDeopt winner then takeDeoptId st m pc else .ok (0, st) with
    | .error e => .error e
    | .ok (deoptId, st') =>
      match fillPatchValues winner m pc deoptId with
      | .error e => .error e
      | .ok values =>
        .ok { st' with
          instances := st'.instances ++ [mkInstance st' winner m pc values]
          instanceDeopt := st'.instanceDeopt ++ [if getsDeopt winner then some deoptId else none]
          outOffset := (st'.outOffset + winner.nominalSize.toNat) % 2 ^ 32
          patchTotal := (st'.patchTotal + winner.patches.length) % 2 ^ 32
          fusionCount :=
            if winner.pattern.length > 1 then (st'.fusionCount + 1) % 2 ^ 32
            else st'.fusionCount }

/-- May a candidate serve the instruction at `pc`? -/
def selects (options : CompileOptions) (m : Method) (pc : Nat) (blocked : List Nat)
    (live : List (Finset Nat)) (cand : Stencil) : Bool :=
  cand.pattern.length ≠ 0 && cand.pattern.length ≤ kMaxPattern &&
    cand.availability ≠ .needsRuntimeFeature &&
    (options.superinstructions || cand.category ≠ .superinstruction) &&
    (cand.pattern.length == 1 || matchSuper cand.window m pc blocked live)

/-- The linear scan from `pc` on.  Every round moves forward, so the length of the
code is fuel enough. -/
def scan (set : StencilSet) (options : CompileOptions) (m : Method) (blocked : List Nat)
    (live : List (Finset Nat)) : Nat → Nat → ScanState → PlanResult ScanState
  | 0, _, st => .ok st
  | fuel + 1, pc, st =>
    if pc < m.code.length then
      let op := (codeAt m pc).op
      match (set.candidates op).find? (selects options m pc blocked live) with
      | none =>
        .error ⟨.noStencilForOp, "pc " ++ toString pc ++ ": op " ++ (info op).name ++
          " has no Available stencil"⟩
      | some winner =>
        match emitInstance st winner m pc options with
        | .error e => .error e
        | .ok st' => scan set options m blocked live fuel (pc + winner.pattern.length) st'
    else .ok st

/-- A backward edge needs a poll at its target or right in front of the branch. -/
def checkTarget (m : Method) (branchPc : Nat) (target : BitVec 32) : Bool :=
  !(decide (0 ≤ target.toInt) && decide (target.toNat < branchPc)) ||
    (codeAt m target.toNat).op == .safepointPoll ||
    (branchPc != 0 && (codeAt m (branchPc - 1)).op == .safepointPoll)

/-- The first backward edge without a poll, as a refusal. -/
def checkBackedgePolls (m : Method) : Option Refusal :=
  m.code.zipIdx.findSome? fun (ins, pc) =>
    let sig := (info ins.op).sig
    if sig = .branch ∨ sig = .regBranch ∨ sig = .regRegBranch then
      if checkTarget m pc ins.imm then none
      else some ⟨.missingBackedgePoll, "backward branch at pc " ++ toString pc ++
        " targets pc " ++ toString ins.immIdx ++ " which is not a safepoint_poll"⟩
    else if sig = .regCpBranch then
      match m.cp[ins.immIdx]? with
      | none => none
      | some c =>
        ((payloadTargets ins.op c.ints).find? fun t => !checkTarget m pc t).map fun t =>
          ⟨.missingBackedgePoll, "backward switch edge at pc " ++ toString pc ++
            " targets pc " ++ toString t.toNat ++ " which is not a safepoint_poll"⟩
    else none

/-! ## The maps of a plan -/

/-- The instance that starts at an instruction, found by binary search. -/
def findInstanceAt (instances : List StencilInstance) (rbcPc : Nat) : Option Nat :=
  let start i := (instances[i]?).map StencilInstance.rbcPcStart
  let lo := bisect (fun i => (start i).any (· < rbcPc)) instances.length 0 instances.length
  if start lo = some rbcPc then some lo else none

def pcMapOf (instances : List StencilInstance) : List PcMapEntry :=
  instances.zipIdx.map fun p => ⟨p.1.outputOffset, p.1.rbcPcStart, p.2⟩

/-- The deoptimization point of an instance, still without its stack map. -/
def deoptPointOf (set : StencilSet) (m : Method) (inst : StencilInstance) (id : Nat) :
    DeoptPoint :=
  let sig := (info (codeAt m inst.rbcPcStart).op).sig
  let reason : DeoptReason :=
    if sig = .guard ∨ sig = .guardCp then .guard
    else if hasFlag (set.desc inst.stencil).flags .canCall then .callException
    else .trap
  ⟨id, inst.outputOffset, inst.rbcPcStart, reason, reason = .callException, kNoLink32⟩

/-- The points with the number of their instance, in instance order. -/
def rawDeoptPoints (set : StencilSet) (m : Method) (instances : List StencilInstance)
    (deopts : List (Option Nat)) : List (DeoptPoint × Nat) :=
  (instances.zip deopts).zipIdx.filterMap fun p =>
    p.1.2.map fun id => (deoptPointOf set m p.1.1 id, p.2)

/-- Points are ordered by id, then by native offset. -/
def pointLe (a b : DeoptPoint × Nat) : Bool :=
  if a.1.deoptId ≠ b.1.deoptId then a.1.deoptId < b.1.deoptId
  else a.1.nativeOffset ≤ b.1.nativeOffset

/-- The number of the entry that belongs to an instance, or no link. -/
def linkOf (owners : List Nat) (i : Nat) : Nat :=
  if i ∈ owners then owners.idxOf i else kNoLink32

def isStackMapSite (set : StencilSet) (inst : StencilInstance) : Bool :=
  hasFlag (set.desc inst.stencil).flags .isSafepoint ||
    hasFlag (set.desc inst.stencil).flags .canCall

def stackMapOf (set : StencilSet) (deoptOwners : List Nat) (p : StencilInstance × Nat) :
    StackMapPoint :=
  let flags := (set.desc p.1.stencil).flags
  ⟨p.1.outputOffset, p.1.rbcPcStart,
    if hasFlag flags .canCall then .call else if hasFlag flags .isSafepoint then .poll else .trap,
    linkOf deoptOwners p.2⟩

/-- The handler table in native terms. -/
def exceptionEdgesOf (instances : List StencilInstance) :
    List ExceptionHandler → PlanResult (List ExceptionEdge)
  | [] => .ok []
  | h :: rest =>
    match findInstanceAt instances h.handler with
    | none =>
      .error ⟨.internalInvariant, "handler entry pc " ++ toString h.handler ++
        " has no instance boundary (mid-fusion handler entry)"⟩
    | some idx =>
      match exceptionEdgesOf instances rest with
      | .error e => .error e
      | .ok edges =>
        let native := ((instances[idx]?).map StencilInstance.outputOffset).getD 0
        .ok (⟨h.start, h.stop, h.handler, h.catchType, native⟩ :: edges)

end B2Compiler.Baseline
