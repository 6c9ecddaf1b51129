import B2Compiler.Passes.DescTypes
import B2Compiler.Passes.Pipeline

/-!
# The inliner's sites

What happens to one call site: the checks that may refuse it, the body that is built into
the graph, the merge of its exits, the rewiring of the users of the call and the removal of
the call with its exceptional continuation.  `processRange` of the pipeline walks the sites
and comes back to those of a body it has built in.

The callee is built by the graph builder.  What it makes of a method is a parameter here: a
sequence of calls of the graph's interface with the exits it ends in, and the measures of
the trial build.
-/

namespace B2Compiler.Passes.Inline

open Ir
open Rbc (Method Program)

/-! ## Reasons -/

def kRInlined := "direct inline: resolvable single body (static proof)"
def kRGuardInlined :=
  "guard inline: monomorphic type profile (guard + SpecMeta + class-hierarchy dependency)"
def kRUnresolved := "target unresolved (external method or ambiguous id)"
def kRNoRow := "no dispatch profile row for the site (not executed in T0)"
def kRKindMismatch := "profile row kind disagrees with the call site (mismatched profile)"
def kRNoEntry := "profile has no receiver entry (builtin/count-only site)"
def kRMega := "megamorphic dispatch site (sticky frozen histogram)"
def kRBimorphic := "bimorphic dispatch site (two-target guard is the follow-up)"
def kRPoly := "polymorphic dispatch site (3 receiver classes)"
def kRThinProfile := "site total below the observation floor (Rule 44)"
def kRLowConfidence := "profile confidence below the guard threshold (Rule 44)"
def kRTargetMismatch := "profile target disagrees with the call-site resolution"
def kRUniversalRecv := "profiled receiver class is java/lang/Object (guard not exact)"
def kRFlags := "callee flags refuse inlining (synchronized/abstract/native)"
def kRInsns := "callee too large (instruction cap)"
def kRSlots := "callee frame too wide (slot cap)"
def kRNoReturn := "callee has no normal return path (v1 refuses)"
def kRBuild := "callee does not build (builder refusal)"
def kRNodes := "callee node cost over cap"
def kRArgs := "argument window does not cover the callee parameters"
def kRRet := "return type disagrees with the call site"
def kRRecursion := "recursive cycle (callee already on the inline stack)"
def kRDepth := "inline depth cap"
def kRSites := "graph site budget"
def kRNodesGraph := "graph node budget"
def kRShape :=
  "call-site shape is not builder-canonical (missing/odd exceptional continuation)"
def kRInconsistent :=
  "inline build failed after a successful trial (driver defect: fail-closed)"

/-! ## The dispatch profile -/

inductive ProfileSiteKind where
  | virtualSite | interfaceSite | specialSite | staticSite
  deriving DecidableEq, Repr, Inhabited

/-- One receiver class seen at a site; a count of zero marks an unused slot. -/
structure ProfileEntry where
  recvClass : String := ""
  target : BitVec 32 := 0xFFFFFFFF
  count : Nat := 0
  deriving DecidableEq, Repr, Inhabited

structure ProfileSite where
  kind : ProfileSiteKind := .virtualSite
  megamorphic : Bool := false
  count : Nat := 0
  entries : List ProfileEntry := []
  deriving DecidableEq, Repr, Inhabited

/-- The rows by method and pc. -/
abbrev DispatchProfile := List (List ProfileSite)

/-- Budgets and thresholds. -/
structure InlineConfig where
  enabled : Bool := true
  maxCalleeInsns : Nat := 35
  maxCalleeSlots : Nat := 24
  maxCalleeNodes : Nat := 300
  maxDepth : Nat := 3
  maxSitesPerGraph : Nat := 64
  maxNodesPerGraph : Nat := 4096
  guardMinObservations : Nat := 3
  guardMinRatioBP : Nat := 9000
  profile : Option DispatchProfile := none
  deriving Repr

/-- What the guard of a monomorphic site is made from. -/
structure GuardPlan where
  entry : ProfileEntry
  confidenceBP : Nat
  deriving DecidableEq, Repr

/-- Refuses for a reason. -/
def refuseIf (bad : Bool) (reason : String) : Except String Unit :=
  if bad then throw reason else pure ()

/-- Classifies a site by its profile row: monomorphic, or the reason why not. -/
def classifySite (prof : DispatchProfile) (callKind : NodeKind) (method pc : Nat)
    (cfg : InlineConfig) : Except String GuardPlan := do
  let want : ProfileSiteKind :=
    if callKind = .callVirtual then .virtualSite else .interfaceSite
  match (prof.getD method [])[pc]? with
  | none => throw kRNoRow
  | some ps =>
    refuseIf (ps.kind != want) kRKindMismatch
    refuseIf ps.megamorphic kRMega
    match ps.entries.filter fun e => e.count != 0 with
    | [] => throw kRNoEntry
    | _ :: _ :: _ :: _ => throw kRPoly
    | [_, _] => throw kRBimorphic
    | [entry] =>
      refuseIf (ps.count < cfg.guardMinObservations) kRThinProfile
      refuseIf (entry.count * 10000 < ps.count * cfg.guardMinRatioBP) kRLowConfidence
      refuseIf (entry.recvClass == "") kRNoEntry
      refuseIf (entry.recvClass == "java/lang/Object") kRUniversalRecv
      return ⟨entry, min 10000 (entry.count * 10000 / ps.count)⟩

/-! ## Callees -/

/-- The trial build of a callee. -/
structure Trial where
  ok : Bool := false
  nodes : Nat := 0
  returns : Nat := 0
  deriving DecidableEq, Repr, Inhabited

structure InlineSiteWiring where
  entryCtrl : NodeId
  entryMem : NodeId
  args : List NodeId
  fsCaller : BitVec 32
  siteCovered : Bool
  deoptIdSeed : BitVec 32
  deriving DecidableEq, Repr

/-- One normal return of a body; the value is invalid for void returns. -/
structure InlineExit where
  ctrl : NodeId
  mem : NodeId
  value : NodeId
  deriving DecidableEq, Repr, Inhabited

/-- What the builder answers for a body. -/
structure InlineBodyResult where
  ok : Bool
  nodesAdded : Nat
  exits : List InlineExit
  diag : Option String := none
  deriving DecidableEq, Repr, Inhabited

structure InlineCalleeSource where
  program : Program
  classId : String → BitVec 32
  trialOf : Nat → Trial
  buildInlineBody : Nat → InlineSiteWiring → Store → List Call × InlineBodyResult

/-- A payload below the size of the method table is the index of the method. -/
def resolve (src : InlineCalleeSource) (callTarget : BitVec 32) : Option (Nat × Method) :=
  (src.program.methods[callTarget.toNat]?).map fun m => (callTarget.toNat, m)

/-! ## Checks of a site -/

structure SiteCont where
  except : NodeId
  node : NodeId
  covered : Bool
  deriving DecidableEq, Repr

/-- The live user of the exceptional projection, if there is exactly one. -/
def liveUser (g : Store) : List Use → NodeId → Option NodeId
  | [], cont => some cont
  | u :: rest, cont =>
    if (g.node u.user).isDead then liveUser g rest cont
    else if cont ≠ kInvalidNodeId ∧ cont ≠ u.user then none
    else liveUser g rest u.user

def siteContinuation (g : Store) (call : NodeId) : Option SiteCont :=
  match (g.usesOf call).find? fun u => (g.node u.user).kind == .callExcept with
  | none => none
  | some u =>
    match liveUser g (g.usesOf u.user) kInvalidNodeId with
    | none => none
    | some cont =>
      if cont = kInvalidNodeId then none
      else if (g.node cont).kind = .deopt ∧ 1 ≤ g.numInputs cont ∧
          g.input cont 0 = u.user then some ⟨u.user, cont, true⟩
      else if (g.node cont).kind = .unwind ∧ 1 ≤ g.numInputs cont ∧
          g.input cont 0 = u.user then some ⟨u.user, cont, false⟩
      else none

/-- Highest deopt id in the graph, tombstones included. -/
def maxDeoptId (g : Store) : BitVec 32 :=
  g.nodes.foldl (fun m nd => match nd.kind with
    | .deopt => if m < nd.payload then nd.payload else m
    | .guardNode => if m < nd.payload2 then nd.payload2 else m
    | _ => m) 0

structure InlineDecision where
  call : NodeId
  target : BitVec 32
  depth : Nat
  inlined : Bool
  reason : String
  deriving DecidableEq, Repr

/-- What the run keeps besides the graph. -/
structure InlineMemo where
  decisions : List InlineDecision := []
  sitesInlined : Nat := 0
  nodesAdded : Nat := 0
  deriving DecidableEq, Repr, Inhabited

/-- A site that passed every check. -/
structure SitePlan where
  method : Nat
  callee : Method
  cont : SiteCont
  fsNode : NodeId
  args : List NodeId
  retCall : RawType
  guard : Option GuardPlan

def isVirtualSite (k : NodeKind) : Bool := k == .callVirtual || k == .callInterface

/-- The profile row of a virtual site has to be monomorphic and to name its target. -/
def guardPrelude (cfg : InlineConfig) (g : Store) (call : NodeId) : Except String GuardPlan := do
  let nIn := g.numInputs call
  let fsPre := if 3 ≤ nIn then g.input call (nIn - 1) else kInvalidNodeId
  let nd := g.node fsPre
  refuseIf (fsPre == kInvalidNodeId || nd.kind != .frameState || nd.isDead) kRShape
  match g.fsDesc[nd.payload.toNat]? with
  | none => throw kRShape
  | some fd =>
    let plan ← classifySite (cfg.profile.getD []) (g.node call).kind fd.method.toNat
      fd.pc.toNat cfg
    refuseIf (plan.entry.target != (g.node call).payload) kRTargetMismatch
    return plan

/-- Only virtual and interface sites need a guard. -/
def guardOf (cfg : InlineConfig) (g : Store) (call : NodeId) : Except String (Option GuardPlan) :=
  if isVirtualSite (g.node call).kind then some <$> guardPrelude cfg g call else pure none

/-- Every check of a site, in the order in which they may refuse it. -/
def siteChecks (src : InlineCalleeSource) (cfg : InlineConfig) (memo : InlineMemo)
    (g : Store) (call : NodeId) (depth : Nat) (stack : List Nat) :
    Except String SitePlan := do
  let nd := g.node call
  refuseIf (cfg.maxSitesPerGraph ≤ memo.sitesInlined) kRSites
  let guard ← guardOf cfg g call
  match resolve src nd.payload with
  | none => throw kRUnresolved
  | some (method, m) =>
    refuseIf (m.isSynchronized || m.isAbstract || m.flags &&& 0x0100 != 0) kRFlags
    refuseIf (cfg.maxCalleeInsns < m.code.length) kRInsns
    refuseIf (cfg.maxCalleeSlots < m.numLocals + m.numRegs) kRSlots
    refuseIf (cfg.maxDepth < depth) kRDepth
    refuseIf (stack.contains method) kRRecursion
    match siteContinuation g call with
    | none => throw kRShape
    | some cont =>
      let nIn := g.numInputs call
      refuseIf (nIn < 3) kRShape
      let fsNode := g.input call (nIn - 1)
      refuseIf ((g.node fsNode).kind != .frameState || (g.node fsNode).isDead) kRShape
      let args := (List.range (nIn - 3)).map fun i => g.input call (i + 2)
      refuseIf (args.length < Rbc.paramCount m.descriptor + if m.isStatic then 0 else 1)
        kRArgs
      let retCall : RawType := nd.payload2.setWidth 8
      refuseIf (retCall != (callResultType m.descriptor).raw) kRRet
      let tr := src.trialOf method
      refuseIf (!tr.ok) kRBuild
      refuseIf (tr.returns == 0) kRNoReturn
      refuseIf (cfg.maxCalleeNodes < tr.nodes) kRNodes
      refuseIf (cfg.maxNodesPerGraph < memo.nodesAdded + tr.nodes) kRNodesGraph
      refuseIf (isVirtualSite nd.kind && args.isEmpty) kRArgs
      return { method, callee := m, cont, fsNode, args, retCall, guard }

/-! ## Building a body in -/

/-- The type-profile guard in front of a body: the calls that make it, and its node. -/
def guardCalls (src : InlineCalleeSource) (plan : SitePlan) (gp : GuardPlan) (g : Store)
    (entryCtrl : NodeId) : List Call × NodeId :=
  let guardType := src.classId gp.entry.recvClass
  let cond := g.nodeCount
  let guardNode := g.nodeCount + 1
  let guardDeopt := 1 + maxDeoptId g
  let dep := BitVec.ofNat 32 g.deps.length
  ([.make .instanceOf [plan.args.headD kInvalidNodeId] guardType 0,
    .make .guardNode [entryCtrl, cond, plan.fsNode] 6 guardDeopt,
    .addDependency { kind := .classHierarchy, target := guardType },
    .addSpecMeta {
      kind := .typeMonomorphic, source := .pgo, confidence := BitVec.ofNat 32 gp.confidenceBP
      guard := BitVec.ofNat 32 guardNode, deoptTarget := guardDeopt
      cost := BitVec.ofNat 32 (src.trialOf plan.method).nodes, dependency := dep
      rollback := .none },
    .attachSpecMeta guardNode (BitVec.ofNat 32 g.specMetas.length)], guardNode)

/-- The graph with the guard, and the control the body starts from. -/
def installGuard (src : InlineCalleeSource) (plan : SitePlan) (call : NodeId) (g : Store) :
    Store × NodeId :=
  let entry := g.input call 0
  match plan.guard with
  | none => (g, entry)
  | some gp =>
    let (calls, guardNode) := guardCalls src plan gp g entry
    (g.run calls, guardNode)

/-- The merge of several exits: the calls that make it, and the state after it. -/
def exitMerge (wantsValue : Bool) (g : Store) : List InlineExit → List Call × InlineExit
  | [e] => ([], e)
  | exits =>
    let region := g.nodeCount
    let memPhi := g.nodeCount + 1
    let valPhi := g.nodeCount + 2
    ([.make .region (exits.map InlineExit.ctrl) 0 0,
      .make .phi (region :: exits.map InlineExit.mem) 0 0] ++
        (if wantsValue then [.make .phi (region :: exits.map InlineExit.value) 0 0] else []),
      ⟨region, memPhi, if wantsValue then valPhi else kInvalidNodeId⟩)

/-- Rewires the live users of the call by the role of their slots; stops at a user of a
value that is not there. -/
def rewireUsers (exit : InlineExit) : List Use → Store → Store × Bool
  | [], g => (g, true)
  | u :: rest, g =>
    if (g.node u.user).isDead then rewireUsers exit rest g
    else match roleOfSlot g u.user u.slot with
      | .ctrl => rewireUsers exit rest (g.setInput u.user u.slot exit.ctrl)
      | .mem => rewireUsers exit rest (g.setInput u.user u.slot exit.mem)
      | .data =>
        if exit.value = kInvalidNodeId then (g, false)
        else rewireUsers exit rest (g.setInput u.user u.slot exit.value)
      | .parent | .frameState | .none => rewireUsers exit rest g

/-- Builds the callee in and rewires the users of the call; on a failure the graph so far
and a message. -/
def buildIn (src : InlineCalleeSource) (plan : SitePlan) (call : NodeId) (g : Store) :
    Except (Store × String) (Store × Nat) :=
  let (guarded, entryCtrl) := installGuard src plan call g
  let wiring : InlineSiteWiring :=
    { entryCtrl, entryMem := guarded.input call 1, args := plan.args
      fsCaller := (guarded.node plan.fsNode).payload, siteCovered := plan.cont.covered
      deoptIdSeed := 1 + maxDeoptId guarded }
  let (calls, body) := src.buildInlineBody plan.method wiring guarded
  let built := guarded.run calls
  let wantsValue := plan.retCall != IRType.bottom.raw
  if body.ok = false ∨ body.exits = [] then
    .error (built, (body.diag.map fun m => "inline body: " ++ m).getD kRInconsistent)
  else if wantsValue = true ∧ (body.exits.any fun e => e.value == kInvalidNodeId) = true then
    .error (built, kRInconsistent)
  else
    let (merge, exit) := exitMerge wantsValue built body.exits
    let merged := built.run merge
    match rewireUsers exit (merged.usesOf call) merged with
    | (rewired, true) => .ok (rewired, body.nodesAdded)
    | (rewired, false) => .error (rewired, "void call has live value users")

/-- The old exceptional continuation dies first, then the projection, then the call. -/
def killSite (cont : SiteCont) (call : NodeId) : PassM Bool := do
  if !(← kill cont.node) then return false
  if !(← kill cont.except) then return false
  kill call

/-- One site up to its verification; `none` when the removal does not come back. -/
def inlineSite (src : InlineCalleeSource) (cfg : InlineConfig) (call : NodeId) (depth : Nat)
    (stack : List Nat) (run : PassRun) (memo : InlineMemo) :
    Option (SiteOutcome InlineMemo) :=
  let decision (inlined : Bool) (reason : String) : InlineMemo :=
    { memo with decisions := memo.decisions ++
        [⟨call, (run.g.node call).payload, depth, inlined, reason⟩] }
  match siteChecks src cfg memo run.g call depth stack with
  | .error reason => some (.refused (decision false reason))
  | .ok plan =>
    match buildIn src plan call run.g with
    | .error (g, message) => some (.broken { run with g } memo message)
    | .ok (g, nodesAdded) =>
      let killRun : PassRun :=
        { run with g, t := {}, b := { limit := cfg.maxCalleeNodes * 4 + 64 } }
      match (killSite plan.cont call).run killRun with
      | none => none
      | some (false, after) => some (.broken { run with g := after.g, jk := after.jk } memo
          "tombstone-law kill refused (live referencers remained: driver defect)")
      | some (true, after) =>
        let reason := if plan.guard.isSome then kRGuardInlined else kRInlined
        some (.built { run with g := after.g, jk := after.jk }
          { decision true reason with
            sitesInlined := memo.sitesInlined + 1
            nodesAdded := memo.nodesAdded + nodesAdded } plan.method)

/-- A run of the inliner over a graph. -/
def runInlining (src : InlineCalleeSource) (cfg : InlineConfig) (fuel : Nat) (g : Store) :
    Option (Inlining InlineMemo) :=
  Passes.runInlining cfg.enabled cfg.profile.isSome (inlineSite src cfg) fuel
    { run := { g }, memo := {} }

end B2Compiler.Passes.Inline
