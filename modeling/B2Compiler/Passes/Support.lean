import B2Compiler.Ir.Verifier

/-!
# Shared support of the passes

What every pass body works on: the graph, the telemetry, the rewrite budget and the
cache of junk sinks.  The verifier checks tombstones like live nodes, so the edges of a
dead node are rewired onto sinks: the start node for control and memory, typed zeros for
data, an empty frame state, matching parents for projections and regions of matching
arity for phis.

A sink is chosen by the type of the current edge, and a question about a type may not
end.  A pass body that asks such a question does not come back; its result is `none`.
-/

namespace B2Compiler.Passes

open Ir IRType Graph

/-! ## What a pass body works on -/

/-- The budget guard. -/
structure Budget where
  limit : Nat := 0
  used : Nat := 0
  exceeded : Bool := false
  deriving DecidableEq, Repr, Inhabited

/-- Sinks made so far; `kInvalidNodeId` stands for none.  The region sinks have 2, 3, …
predecessors. -/
structure Junk where
  ifSink : NodeId := kInvalidNodeId
  switchSink : NodeId := kInvalidNodeId
  callSink : NodeId := kInvalidNodeId
  fsSink : NodeId := kInvalidNodeId
  constI : NodeId := kInvalidNodeId
  constL : NodeId := kInvalidNodeId
  constF : NodeId := kInvalidNodeId
  constD : NodeId := kInvalidNodeId
  constNull : NodeId := kInvalidNodeId
  regionSinks : List NodeId := []
  deriving DecidableEq, Repr, Inhabited

/-- What a run reports. -/
structure PassTelemetry where
  rewrites : Nat := 0
  removals : Nat := 0
  folds : Nat := 0
  gvnDedups : Nat := 0
  sccpConstants : Nat := 0
  rounds : Nat := 0
  budgetOverruns : Nat := 0
  peaScalarized : Nat := 0
  peaMaterialized : Nat := 0
  peaRejected : Nat := 0
  converged : Bool := true
  deriving DecidableEq, Repr, Inhabited

/-- The state of a pass body. -/
structure PassRun where
  g : Store
  t : PassTelemetry := {}
  b : Budget := {}
  jk : Junk := {}
  deriving DecidableEq, Repr, Inhabited

/-- Pass code: a state transformer that may not come back. -/
abbrev PassM := StateT PassRun Option

/-- Takes one unit of the budget. -/
def charge : PassM Bool := do
  let s ← get
  if s.b.exceeded ∨ s.b.limit ≤ s.b.used then
    set { s with b := { s.b with exceeded := true } }
    return false
  else
    set { s with b := { s.b with used := s.b.used + 1 } }
    return true

def graph : PassM Store := do return (← get).g

/-- A mutation of the graph. -/
def onGraph (f : Store → Store) : PassM Unit := modify fun s => { s with g := f s.g }

def making (f : Store → Store × NodeId) : PassM NodeId := do
  let s ← get
  let (g, n) := f s.g
  set { s with g }
  return n

/-! ## Predicates of the registry -/

/-- Value kinds without an effect. -/
def isPureValueKind : NodeKind → Bool
  | .constantI | .constantL | .constantF | .constantD | .constantNull | .constantSym
  | .parameter
  | .addI | .subI | .mulI | .divI | .remI | .negI | .shlI | .shrI | .ushrI | .andI | .orI
  | .xorI | .addL | .subL | .mulL | .divL | .remL | .negL | .shlL | .shrL | .ushrL | .andL
  | .orL | .xorL | .addF | .subF | .mulF | .divF | .remF | .negF | .addD | .subD | .mulD
  | .divD | .remD | .negD | .cmpI | .cmpL | .cmpFl | .cmpFg | .cmpDl | .cmpDg
  | .i2l | .i2f | .i2d | .l2i | .l2f | .l2d | .f2i | .f2l | .f2d | .d2i | .d2l | .d2f
  | .i2b | .i2c | .i2s | .signExtend | .zeroExtend | .truncate | .bitCast
  | .compressedRefEncode | .compressedRefDecode | .boxPrimitive | .unboxPrimitive | .phi
  | .vectorBroadcast | .vectorPack | .vectorExtract | .vectorInsert | .vectorOp
  | .vectorMaskOp | .vectorReduce | .virtualObjectState | .tagValue | .untagValue
  | .undef | .not | .isNull | .refEq | .eqI | .neI | .ltI | .leI | .gtI | .geI => true
  | _ => false

/-- What dead code elimination may remove: frame states, the guarded readers and pure
values other than the trapping divisions and virtual objects. -/
def isDceSafe (k : NodeKind) : Bool :=
  match k with
  | .frameState | .arrayLength | .instanceOf => true
  | .divI | .remI | .divL | .remL | .virtualObjectState => false
  | _ => isPureValueKind k

/-- What value numbering may merge: pure values other than state markers, and the
readers. -/
def isGvnEligible (k : NodeKind) : Bool :=
  match k with
  | .phi | .arrayLength | .instanceOf | .loadField | .loadStatic | .loadElem => true
  | .undef | .virtualObjectState => false
  | _ => isPureValueKind k

/-- Does the kind read control anywhere in its signature? -/
def consumesControl (k : NodeKind) : Bool :=
  let row := info k
  row.roles.any (fun r => r == .ctrl || r == .parent) || row.variadicRole == some .ctrl

def isTerminator : NodeKind → Bool
  | .returnNode | .unwind | .deopt | .endNode => true
  | _ => false

/-- Role of an input slot: the trailing frame state, the fixed prefix, then the appended
inputs. -/
def roleOfSlot (g : Store) (n : NodeId) (slot : Nat) : InputRole :=
  let row := info (g.node n).kind
  if g.numInputs n ≤ slot then .none
  else if row.hasFrameState = true ∧ slot + 1 = g.numInputs n then .frameState
  else match row.roles[slot]? with
    | some role => role
    | none => row.variadicRole.getD .none

/-- Values that are never null: fresh objects, symbols and flagged nodes. -/
def isNeverNullNode (g : Store) (n : NodeId) : Bool :=
  let nd := g.node n
  if nd.isDead then false
  else if nd.flags.has .neverNull then true
  else match nd.kind with
    | .new | .newArray | .newRefArray | .newMultiArray | .materialize | .constantSym => true
    | _ => false

/-- All referencers, tombstones included. -/
def useCount (g : Store) (n : NodeId) : Nat := (g.usesOf n).length

def liveUseCount (g : Store) (n : NodeId) : Nat :=
  ((g.usesOf n).filter fun u => !(g.node u.user).isDead).length

/-! ## Sinks -/

/-- A sink is missing when it was never made or died since. -/
def sinkMissing (g : Store) (n : NodeId) : Bool := n == kInvalidNodeId || (g.node n).isDead

/-- A live frame state without slots. -/
def makeFsSink : PassM NodeId := making fun g => g.makeFrameState 0 0 [] kInvalidFrameState []

/-- The parent a dead projection hangs off. -/
def parentSink (projectionKind : NodeKind) : PassM NodeId := do
  let s ← get
  match projectionKind with
  | .ifTrue | .ifFalse =>
    if sinkMissing s.g s.jk.ifSink then
      let c ← making fun g => g.constantI 0
      let n ← making fun g => g.make .ifNode [startNode, c] 0 0
      modify fun s => { s with jk := { s.jk with ifSink := n } }
      return n
    else return s.jk.ifSink
  | .switchCase | .switchDefault =>
    if sinkMissing s.g s.jk.switchSink then
      let c ← making fun g => g.constantI 0
      let n ← making fun g => g.make .switchNode [startNode, c] 0 0
      modify fun s => { s with jk := { s.jk with switchSink := n } }
      return n
    else return s.jk.switchSink
  | .callExcept =>
    if sinkMissing s.g s.jk.callSink then
      let fs ← makeFsSink
      let n ← making fun g =>
        g.make .callStatic [startNode, startNode] 0 bottom.toTag
      onGraph fun g => g.appendInput n fs
      modify fun s => { s with jk := { s.jk with callSink := n } }
      return n
    else return s.jk.callSink
  | _ => return startNode

def fsSinkGet : PassM NodeId := do
  let s ← get
  if sinkMissing s.g s.jk.fsSink then
    let n ← makeFsSink
    modify fun s => { s with jk := { s.jk with fsSink := n } }
    return n
  else return s.jk.fsSink

/-- A cached sink, made anew when it is missing. -/
def constSink (read : Junk → NodeId) (write : Junk → NodeId → Junk)
    (constant : Store → Store × NodeId) : PassM NodeId := do
  let s ← get
  if sinkMissing s.g (read s.jk) then
    let n ← making constant
    modify fun s => { s with jk := write s.jk n }
    return n
  else return read s.jk

/-- A zero of the given type.  A slot without a type is the value edge of a memory phi:
its sink is the start node.  Tagged values and vectors have no sink. -/
def dataSink (type : RawType) : PassM NodeId :=
  if type = int.raw then
    constSink Junk.constI (fun jk n => { jk with constI := n }) fun g => g.constantI 0
  else if type = long.raw then
    constSink Junk.constL (fun jk n => { jk with constL := n }) fun g => g.constantL 0
  else if type = float.raw then
    constSink Junk.constF (fun jk n => { jk with constF := n }) fun g => g.constantF 0
  else if type = double.raw then
    constSink Junk.constD (fun jk n => { jk with constD := n }) fun g => g.constantD 0
  else if type = null.raw ∨ type = ref.raw then
    constSink Junk.constNull (fun jk n => { jk with constNull := n }) fun g => g.constantNull
  else if type = bottom.raw then pure startNode
  else pure kInvalidNodeId

/-- Makes the region sinks up to the given number of predecessors. -/
def growRegionSinks (upTo : Nat) : Nat → PassM Unit
  | 0 => pure ()
  | missing + 1 => do
      let preds := upTo - missing
      let n ← making fun g => g.make .region (List.replicate preds startNode) 0 0
      modify fun s => { s with jk := { s.jk with regionSinks := s.jk.regionSinks ++ [n] } }
      growRegionSinks upTo missing

def regionSink (preds : Nat) : PassM NodeId := do
  let preds := max preds 2
  let s ← get
  growRegionSinks preds (preds - 1 - s.jk.regionSinks.length)
  return (← get).jk.regionSinks.getD (preds - 2) 0

def isJunkSink (jk : Junk) (n : NodeId) : Bool :=
  [jk.ifSink, jk.switchSink, jk.callSink, jk.fsSink, jk.constI, jk.constL, jk.constF, jk.constD,
    jk.constNull].contains n || jk.regionSinks.contains n

/-- The type of the value a node produces; the question may not end. -/
def typeOf (n : NodeId) : PassM RawType := do
  let g ← graph
  match g.image.typeOf n with
  | some t => return t
  | none => failure

/-- The sink for a slot, `kInvalidNodeId` when its edge has to stay. -/
def junkForSlot (n : NodeId) (slot : Nat) : PassM NodeId := do
  let g ← graph
  let nd := g.node n
  if nd.numInputs ≤ slot then return kInvalidNodeId
  else if nd.kind = .phi ∧ slot = 0 then regionSink (nd.numInputs - 1)
  else match roleOfSlot g n slot with
    | .ctrl | .mem => return startNode
    | .parent => parentSink nd.kind
    | .frameState => fsSinkGet
    | .data | .none => do
        let t ← typeOf (g.input n slot)
        dataSink t

def junkSlots (n : NodeId) : Nat → Nat → PassM Unit
  | 0, _ => pure ()
  | left + 1, slot => do
      let cur := (← graph).input n slot
      if cur ≠ startNode ∧ cur ≠ n then
        let sink ← junkForSlot n slot
        if sink ≠ kInvalidNodeId ∧ sink ≠ cur then
          onGraph fun g => g.setInput n slot sink
      junkSlots n left (slot + 1)

/-- Rewires every edge of a tombstone.  A phi with one value is padded first, because no
region with one predecessor verifies. -/
def junkEdges (n : NodeId) : PassM Unit := do
  let g ← graph
  if (g.node n).kind = .phi ∧ (g.node n).numInputs = 2 then
    let t ← typeOf (g.input n 1)
    let pad ← dataSink (if t = bottom.raw then int.raw else t)
    if pad ≠ kInvalidNodeId then onGraph fun g => g.appendInput n pad
  junkSlots n ((← graph).node n).numInputs 0

/-- Replaces a node by another, if the budget allows it. -/
def replace (oldNode withNode : NodeId) : PassM Unit := do
  if ← charge then
    let (g, epoch) := (← graph).replaceNode oldNode withNode
    onGraph fun _ => g
    if epoch ≠ 0 then
      modify fun s => { s with t := { s.t with rewrites := s.t.rewrites + 1 } }
      junkEdges oldNode

/-- Rewires the dead referencers of a node, from a snapshot of its uses. -/
def junkReferencers (n : NodeId) : List Use → PassM Unit
  | [] => pure ()
  | u :: rest => do
      let g ← graph
      if u.user < g.nodeCount ∧ u.slot < g.numInputs u.user ∧ g.input u.user u.slot = n then
        let sink ← junkForSlot u.user u.slot
        if sink ≠ kInvalidNodeId then onGraph fun g => g.setInput u.user u.slot sink
      junkReferencers n rest

/-- Kills a node that no live node references; answers whether it is gone. -/
def kill (n : NodeId) : PassM Bool := do
  let g ← graph
  if g.nodeCount ≤ n ∨ (g.node n).isDead then return true
  else if !(← charge) then return false
  else if (g.usesOf n).any fun u => u.user < g.nodeCount && !(g.node u.user).isDead then
    return false
  else
    junkReferencers n (g.usesOf n)
    junkEdges n
    onGraph fun g => g.killNode n
    modify fun s => { s with t := { s.t with removals := s.t.removals + 1 } }
    return true

/-- Visits the nodes from `n` on in the order of their ids, those made meanwhile
included, and answers whether a visit changed the graph.  Stops when the budget is
used up; `fuel` bounds the number of visits. -/
def sweepNodes (visit : NodeId → PassM Bool) : Nat → NodeId → PassM Bool
  | 0, _ => failure
  | fuel + 1, n => do
      let s ← get
      if n < s.g.nodeCount ∧ s.b.exceeded = false then
        let changed ← visit n
        let later ← sweepNodes visit fuel (n + 1)
        return changed || later
      else return false

end B2Compiler.Passes
