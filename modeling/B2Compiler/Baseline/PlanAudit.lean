import B2Compiler.Baseline.Plan

/-!
# The plan auditor and the whole builder

`verifyPlan` checks the invariants of a plan one after the other and reports the
first that fails.  Each check is a function that returns the complaint, or nothing.
`compilePlan` is the builder from the verifier's gate to its audit of the result.
-/

namespace B2Compiler.Baseline

open Rbc

def descOf (set : StencilSet) (inst : StencilInstance) : Option Stencil :=
  set.stencils[inst.stencil]?

/-- The complaint about a declared link of step `k`. -/
def linkError (m : Method) (i start k reg : Nat) (what : String) : Option Nat → Option String
  | none => none
  | some link =>
    let here := "instance " ++ toString i ++ " step " ++ toString k
    if link ≥ k then some (here ++ " has a forward " ++ what ++ " link")
    else if (codeAt m (start + link)).dstReg ≠ reg then
      some (here ++ " " ++ what ++ " link does not hold")
    else none

/-- The complaint about step `k` of an instance. -/
def stepError (m : Method) (i start k : Nat) (step : PatternStep) : Option String :=
  let ins := codeAt m (start + k)
  if ins.op ≠ step.op then
    some ("instance " ++ toString i ++ " step " ++ toString k ++ " expects op " ++
      (info step.op).name ++ " but rbc pc " ++ toString (start + k) ++ " is " ++
      (info ins.op).name)
  else
    (linkError m i start k ins.aReg "useAsA" step.useAsA).or
      (linkError m i start k ins.bReg "useAsB" step.useAsB)

/-- The complaint about one instance that has to start at `expected`. -/
def instanceError (set : StencilSet) (m : Method) (i expected : Nat) (inst : StencilInstance) :
    Option String :=
  match descOf set inst with
  | none =>
    some ("instance " ++ toString i ++ " references invalid stencil id " ++ toString inst.stencil)
  | some desc =>
    let len := inst.rbcPcEnd - inst.rbcPcStart
    if inst.rbcPcStart ≠ expected then
      some ("instance " ++ toString i ++ " starts at rbc pc " ++ toString inst.rbcPcStart ++
        ", expected " ++ toString expected ++ " (coverage tiling)")
    else if inst.rbcPcEnd ≤ inst.rbcPcStart ∨ inst.rbcPcEnd > m.code.length then
      some ("instance " ++ toString i ++ " has empty or out-of-range rbc range [" ++
        toString inst.rbcPcStart ++ "," ++ toString inst.rbcPcEnd ++ ")")
    else if desc.pattern.length ≠ len ∨ len > kMaxPattern then
      some ("instance " ++ toString i ++ " covers " ++ toString len ++
        " instructions but stencil " ++ desc.name ++ " pattern has " ++
        toString desc.pattern.length)
    else desc.pattern.zipIdx.findSome? fun s => stepError m i inst.rbcPcStart s.2 s.1

/-- The instances tile the code from `expected` on, and each serves the instructions
it covers. -/
def tilingError (set : StencilSet) (m : Method) : List StencilInstance → Nat → Nat → Option String
  | [], _, expected =>
    if expected ≠ m.code.length then
      some ("instances end at rbc pc " ++ toString expected ++ " but code size is " ++
        toString m.code.length)
    else none
  | inst :: rest, i, expected =>
    (instanceError set m i expected inst).or (tilingError set m rest (i + 1) inst.rbcPcEnd)

/-- The instances lie one behind the other from `offset` on, in 32-bit arithmetic, and
end at `codeSize`. -/
def layoutError (set : StencilSet) (codeSize : Nat) :
    List StencilInstance → Nat → Nat → Option String
  | [], _, offset =>
    if codeSize ≠ offset then
      some ("code_size " ++ toString codeSize ++ " != end of last instance " ++ toString offset)
    else none
  | inst :: rest, i, offset =>
    let nominal := (set.desc inst.stencil).nominalSize.toNat
    if inst.outputOffset ≠ offset then
      some ("instance " ++ toString i ++ " output offset " ++ toString inst.outputOffset ++
        ", expected " ++ toString offset)
    else if inst.outputSize ≠ nominal then
      some ("instance " ++ toString i ++ " output size " ++ toString inst.outputSize ++
        " != stencil nominal size " ++ toString nominal)
    else layoutError set codeSize rest (i + 1) ((offset + inst.outputSize) % 2 ^ 32)

def entryOffset (instances : List StencilInstance) : Nat :=
  match instances with
  | [] => 0
  | inst :: _ => inst.outputOffset

def entryError (plan : StencilPlan) : Option String :=
  if plan.entryNativeOffset ≠ entryOffset plan.instances then
    some ("entry_native_offset " ++ toString plan.entryNativeOffset ++
      " != first instance offset " ++ toString (entryOffset plan.instances))
  else none

/-- The entries agree with the instances and their offsets increase; `prev` is the
offset of the entry before. -/
def entriesError : List (PcMapEntry × StencilInstance) → Nat → Option Nat → Option String
  | [], _, _ => none
  | (e, inst) :: rest, i, prev =>
    if e.nativeOffset ≠ inst.outputOffset ∨ e.rbcPc ≠ inst.rbcPcStart ∨ e.instIdx ≠ i then
      some ("pc_map entry " ++ toString i ++ " does not match its instance (coverage shape)")
    else if prev.any (e.nativeOffset ≤ ·) then
      some ("pc_map is not sorted by native offset at entry " ++ toString i)
    else entriesError rest (i + 1) (some e.nativeOffset)

def pcMapError (plan : StencilPlan) : Option String :=
  if plan.pcMap.length ≠ plan.instances.length then
    some ("pc_map has " ++ toString plan.pcMap.length ++ " entries for " ++
      toString plan.instances.length ++ " instances")
  else entriesError (plan.pcMap.zip plan.instances) 0 none

/-- The first number that stands twice in a row. -/
def adjacentDuplicate : List Nat → Option Nat
  | a :: b :: rest => if b = a then some b else adjacentDuplicate (b :: rest)
  | _ => none

/-- A declared id stands in the instruction its point names. -/
def declaredIdError (m : Method) (dp : DeoptPoint) : Option String :=
  let id := "deopt id " ++ toString dp.deoptId
  if dp.deoptId ≥ kPlanAllocatedDeoptIdBase then none
  else if dp.rbcPc ≥ m.code.length then
    some (id ++ " has out-of-range rbc pc " ++ toString dp.rbcPc)
  else
    let ins := codeAt m dp.rbcPc
    if !declaresDeopt (info ins.op).sig then
      some (id ++ " is rbc-declared but rbc pc " ++ toString dp.rbcPc ++ " holds non-guard op " ++
        (info ins.op).name)
    else if streamDeoptId ins ≠ dp.deoptId then
      some (id ++ " does not match the instruction's id " ++ toString (streamDeoptId ins) ++
        " at rbc pc " ++ toString dp.rbcPc)
    else none

def deoptError (m : Method) (points : List DeoptPoint) : Option String :=
  ((adjacentDuplicate ((points.map DeoptPoint.deoptId).mergeSort)).map fun id =>
    "duplicate deopt id " ++ toString id).or (points.findSome? (declaredIdError m))

/-- The native handler of an edge is the instance that starts at its handler. -/
def edgeError (instances : List StencilInstance) (p : ExceptionEdge × Nat) : Option String :=
  let edge := "exception edge " ++ toString p.2
  match findInstanceAt instances p.1.handlerPc with
  | none => some (edge ++ " handler pc " ++ toString p.1.handlerPc ++ " has no instance boundary")
  | some idx =>
    let native := ((instances[idx]?).map StencilInstance.outputOffset).getD 0
    if p.1.nativeHandler ≠ native then
      some (edge ++ " native handler " ++ toString p.1.nativeHandler ++
        " != instance offset " ++ toString native)
    else none

def coversError (i : Nat) (inst : StencilInstance) :
    List ExceptionEdge → Nat → List Nat → Option String
  | [], _, left =>
    if left ≠ [] then
      some ("CanTrap instance " ++ toString i ++
        " exc_covers is not the ascending list of covering exception edges")
    else none
  | edge :: rest, ei, left =>
    let covered := edge.start ≤ inst.rbcPcStart ∧ inst.rbcPcEnd ≤ edge.stop
    let listed := left.head? = some ei
    if covered ∧ ¬listed then
      some ("CanTrap instance " ++ toString i ++ " does not list covering exception edge " ++
        toString ei)
    else if listed ∧ ¬covered then
      some ("CanTrap instance " ++ toString i ++ " lists exception edge " ++ toString ei ++
        " which does not cover its rbc range")
    else coversError i inst rest (ei + 1) (if listed then left.tail else left)

def trapError (set : StencilSet) (edges : List ExceptionEdge) (p : StencilInstance × Nat) :
    Option String :=
  match descOf set p.1 with
  | none => some ("instance " ++ toString p.2 ++ " references invalid stencil id")
  | some desc =>
    if hasFlag desc.flags .canTrap then coversError p.2 p.1 edges 0 p.1.excCovers else none

/-- Value number `k` against the hole it fills. -/
def siteError (i : Nat) (p : (PatchValue × PatchSiteDesc) × Nat) : Option String :=
  let here := "instance " ++ toString i ++ " patch value " ++ toString p.2
  if p.1.1.site ≠ p.2 then some (here ++ " has site index " ++ toString p.1.1.site)
  else if p.1.1.source ≠ p.1.2.source then
    some (here ++ " source disagrees with the declared hole")
  else if p.1.1.kind ≠ p.1.2.kind then
    some (here ++ " kind disagrees with the declared hole")
  else none

def patchError (set : StencilSet) (p : StencilInstance × Nat) : Option String :=
  let holes := (set.desc p.1.stencil).patches
  if p.1.patchValues.length ≠ holes.length then
    some ("instance " ++ toString p.2 ++ " has " ++ toString p.1.patchValues.length ++
      " patch values for " ++ toString holes.length ++ " declared holes")
  else (p.1.patchValues.zip holes).zipIdx.findSome? (siteError p.2)

/-- The first violated invariant of a plan. -/
def planError (plan : StencilPlan) (m : Method) (set : StencilSet) : Option String :=
  (tilingError set m plan.instances 0 0).or <|
  (layoutError set plan.codeSize plan.instances 0 0).or <|
  (entryError plan).or <|
  (pcMapError plan).or <|
  (deoptError m plan.deoptPoints).or <|
  (plan.exceptionEdges.zipIdx.findSome? (edgeError plan.instances)).or <|
  (plan.instances.zipIdx.findSome? (trapError set plan.exceptionEdges)).or <|
  plan.instances.zipIdx.findSome? (patchError set)

structure PlanCheckResult where
  ok : Bool
  error : String
  deriving DecidableEq, Repr

def verifyPlan (plan : StencilPlan) (m : Method) (set : StencilSet) : PlanCheckResult :=
  match planError plan m set with
  | some e => ⟨false, e⟩
  | none => ⟨true, ""⟩

/-- The plan of the emitted instances; its exception edges are resolved before. -/
def assemble (index : Nat) (m : Method) (set : StencilSet) (st : ScanState)
    (edges : List ExceptionEdge) : StencilPlan :=
  let points := (rawDeoptPoints set m st.instances st.instanceDeopt).insertionSort
    fun a b => pointLe a b
  let sites := st.instances.zipIdx.filter fun p => isStackMapSite set p.1
  let stackMaps := sites.map (stackMapOf set (points.map Prod.snd))
  { methodIndex := index
    methodName := m.name
    methodDescriptor := m.descriptor
    methodStatic := m.isStatic
    numRegs := m.numRegs
    numLocals := m.numLocals
    setVersion := set.version
    instances := st.instances
    pcMap := pcMapOf st.instances
    stackMaps := stackMaps
    deoptPoints := points.map fun p => { p.1 with stackMap := linkOf (sites.map Prod.snd) p.2 }
    exceptionEdges := edges
    entryNativeOffset := entryOffset st.instances
    codeSize := st.outOffset
    fusionCount := st.fusionCount
    patchCount := st.patchTotal
    safepointCount := stackMaps.length }

/-- The plan of a verified method, or the refusal. -/
def planMethod (index : Nat) (m : Method) (set : StencilSet) (options : CompileOptions) :
    PlanResult StencilPlan :=
  -- the iteration settles for every method, so the default is never used
  let live := (computeLiveness m).getD []
  if m.handlers.length > 0xFFFF then
    .error ⟨.internalInvariant, "handler table size " ++ toString m.handlers.length ++
      " exceeds the u16 exception-edge index space"⟩
  else
    match scan set options m (computeFusionBlocked m) live m.code.length 0 {} with
    | .error e => .error e
    | .ok st =>
      match exceptionEdgesOf st.instances m.handlers with
      | .error e => .error e
      | .ok edges =>
        match if options.requireBackedgePolls then checkBackedgePolls m else none with
        | some e => .error e
        | none =>
          let plan := assemble index m set st edges
          let check := verifyPlan plan m set
          if check.ok then .ok plan
          else .error ⟨.internalInvariant,
            "verifyPlan rejected the emitted plan: " ++ check.error⟩

def compilePlan (program : Program) (index : Nat) (set : StencilSet)
    (options : CompileOptions) : PlanResult StencilPlan :=
  match program.methods[index]? with
  | none =>
    .error ⟨.internalInvariant, "method index " ++ toString index ++
      " out of range (program has " ++ toString program.methods.length ++ " methods)"⟩
  | some m =>
    let vr := verify m
    if vr.ok then planMethod index m set options
    else
      .error ⟨.unverifiableMethod,
        match vr.diags with
        | [] => "rbc::verify failed with no diagnostics"
        | d :: _ => "pc " ++ toString d.pc ++ ": " ++ d.message⟩

end B2Compiler.Baseline
