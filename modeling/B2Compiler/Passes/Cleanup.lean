import Mathlib.Data.List.Sort
import B2Compiler.Passes.Support

/-!
# The cleanup passes

Dead code elimination, value numbering, null-check folding, branch normalization and the
unreachable sweep with its region repair.  The visits of one sweep are bounded by `fuel`;
a body that needs more does not come back.
-/

namespace B2Compiler.Passes

open Ir

def kMaxDceSweeps : Nat := 64

/-- Some descriptor names the frame state as its caller. -/
def isCallerChained (g : Store) (descId : BitVec 32) : Bool :=
  g.fsDesc.any fun d => d.caller == descId

def dceVisit (n : NodeId) : PassM Bool := do
  let g ← graph
  let nd := g.node n
  if nd.isDead = true ∨ isDceSafe nd.kind = false ∨ n = Graph.startNode then return false
  else if nd.kind = .frameState ∧ isCallerChained g nd.payload = true then return false
  else if useCount g n = 0 then kill n
  else return false

def dceSweeps (fuel : Nat) : Nat → PassM Unit
  | 0 => pure ()
  | sweeps + 1 => do
      if ← sweepNodes dceVisit fuel 0 then dceSweeps fuel sweeps

def runDCE (fuel : Nat) : PassM Unit := dceSweeps fuel kMaxDceSweeps

/-- What two merged nodes have in common. -/
structure GvnKey where
  kind : NodeKind
  payload : BitVec 32
  payload2 : BitVec 32
  constValue : BitVec 64
  inputs : List NodeId
  deriving DecidableEq, Repr

def keyOf (g : Store) (n : NodeId) : GvnKey :=
  let nd := g.node n
  ⟨nd.kind, nd.payload, nd.payload2, nd.constValue,
    (List.range nd.numInputs).map fun s => g.input n s⟩

/-- The sweep with the keys seen so far and their first nodes. -/
def gvnNodes : Nat → NodeId → List (GvnKey × NodeId) → PassM Unit
  | 0, _, _ => failure
  | fuel + 1, n, seen => do
      let s ← get
      if n < s.g.nodeCount ∧ s.b.exceeded = false then
        let nd := s.g.node n
        if nd.isDead = true ∨ isGvnEligible nd.kind = false then gvnNodes fuel (n + 1) seen
        else
          let k := keyOf s.g n
          match seen.find? fun e => e.1 == k with
          | none => gvnNodes fuel (n + 1) ((k, n) :: seen)
          | some (_, survivor) =>
            if survivor ≠ n ∧ (s.g.node survivor).isDead = false then
              replace n survivor
              modify fun s' =>
                if s'.t.rewrites ≠ s.t.rewrites then
                  { s' with t := { s'.t with gvnDedups := s'.t.gvnDedups + 1 } }
                else s'
            gvnNodes fuel (n + 1) seen
      else return ()

def runGVN (fuel : Nat) : PassM Unit := gvnNodes fuel 0 []

/-! ## Control flow -/

def kMaxSweepIterations : Nat := 64

def isRegionLike : NodeKind → Bool
  | .region | .loopBegin => true
  | _ => false

/-- The live phis that merge at a region, in the order of their ids. -/
def phisOf (g : Store) (r : NodeId) : List NodeId :=
  (((g.usesOf r).filter fun u =>
    !(g.node u.user).isDead && u.slot == 0 && (g.node u.user).kind == .phi).map
      Use.user).insertionSort (· ≤ ·)

/-- The value of a constant condition. -/
def constCondOf (g : Store) (cond : NodeId) : Option (BitVec 32) :=
  let c := g.node cond
  if c.isDead = true ∨ c.kind ≠ .constantI then none else some (c.constValue.setWidth 32)

/-- The live projection of a branch. -/
def projectionOf (g : Store) (iff : NodeId) (want : NodeKind) : Option NodeId :=
  ((g.usesOf iff).find? fun u =>
    u.slot == 0 && !(g.node u.user).isDead && (g.node u.user).kind == want).map Use.user

/-- A guard whose condition is the constant 0. -/
def failingGuard (g : Store) (n : NodeId) : Bool :=
  (g.node n).kind == .guardNode && decide (2 ≤ g.numInputs n) &&
    constCondOf g (g.input n 1) == some 0

/-- Where control goes from a node: a decided branch flows to the taken side only, a
failing guard nowhere. -/
def flowSuccessors (g : Store) (c : NodeId) : List NodeId :=
  let nd := g.node c
  let users := (g.usesOf c).filter fun u =>
    decide (u.user < g.nodeCount) && !(g.node u.user).isDead && g.input u.user u.slot == c &&
      (roleOfSlot g u.user u.slot == .ctrl || roleOfSlot g u.user u.slot == .parent)
  if isTerminator nd.kind then []
  else
    let decided :=
      if nd.kind = .ifNode ∧ nd.numInputs = 2 then constCondOf g (g.input c 1) else none
    match decided with
    | some v =>
      let keep := projectionOf g c (if v ≠ 0 then .ifTrue else .ifFalse)
      ((g.usesOf c).filter fun u =>
        u.slot == 0 && some u.user == keep && !(g.node u.user).isDead).map Use.user
    | none => if failingGuard g c then [] else users.map Use.user

/-- Depth-first search; every id is pushed at most once, so a step per node is enough. -/
def flowReach (g : Store) : Nat → List NodeId → List Bool → List Bool
  | 0, _, reach => reach
  | _, [], reach => reach
  | fuel + 1, c :: work, reach =>
    let (work, reach) := (flowSuccessors g c).foldl
      (fun (acc : List NodeId × List Bool) s =>
        if s < g.nodeCount ∧ acc.2.getD s true = false then (s :: acc.1, acc.2.set s true)
        else acc) (work, reach)
    flowReach g fuel work reach

/-- The nodes control can reach. -/
def reachable (g : Store) : List Bool :=
  let reach := List.replicate g.nodeCount false
  if Graph.startNode < g.nodeCount then
    flowReach g (g.nodeCount + 1) [Graph.startNode] (reach.set Graph.startNode true)
  else reach

/-! ## Region repair -/

/-- A predecessor that still counts: alive and, when reachability is known, reached. -/
def effectivePred (g : Store) (reach : Option (List Bool)) (p : NodeId) : Bool :=
  if (g.node p).isDead then false
  else match reach with
    | none => true
    | some r => r.getD p true

/-- Kills the nodes of a list; answers whether one is gone. -/
def killAll : List NodeId → PassM Bool
  | [] => return false
  | p :: rest => do
      let gone ← kill p
      let later ← killAll rest
      return gone || later

/-- Collapses phis to the value of the surviving predecessor. -/
def collapsePhis (slot : Nat) : List NodeId → PassM Bool
  | [] => return false
  | p :: rest => do
      let g ← graph
      let v := g.input p (1 + slot)
      let changed ←
        if (g.node v).isDead = false ∧ v ≠ p then do
          replace p v
          pure true
        else kill p
      let later ← collapsePhis slot rest
      return changed || later

/-- Rebuilds phis over a fresh region with the values of the surviving predecessors. -/
def rebuildPhis (fresh : NodeId) (live : List Nat) : List NodeId → PassM Unit
  | [] => return ()
  | p :: rest => do
      let g ← graph
      let freshPhi ← making fun h =>
        h.make .phi (fresh :: live.map fun s => g.input p (1 + s)) 0 0
      replace p freshPhi
      rebuildPhis fresh live rest

/-- Repairs one region. -/
def repairRegion (reach : Option (List Bool)) (n : NodeId) : PassM Bool := do
  let g ← graph
  let nd := g.node n
  if nd.isDead = true ∨ isRegionLike nd.kind = false then return false
  else
    let live := (List.range nd.numInputs).filter fun s => effectivePred g reach (g.input n s)
    let phis := phisOf g n
    if live.length = nd.numInputs ∧ live ≠ [] then return false
    else match live with
      | [] => do
          let phisGone ← killAll phis
          let gone ← kill n
          return phisGone || gone
      | [slot] => do
          let pred := g.input n slot
          let phisChanged ← collapsePhis slot phis
          let g ← graph
          if (g.node pred).isDead = false ∧ pred ≠ n then
            replace n pred
            return phisChanged
          else
            let gone ← kill n
            return phisChanged || gone
      | _ => do
          let fresh ← making fun h => h.make nd.kind (live.map fun s => g.input n s) 0 0
          rebuildPhis fresh live phis
          replace n fresh
          return true

/-- Repairs regions until nothing changes. -/
def rebuildRegions (fuel : Nat) (reach : Option (List Bool)) : Nat → PassM Unit
  | 0 => pure ()
  | iter + 1 => do
      if ← sweepNodes (repairRegion reach) fuel 1 then rebuildRegions fuel reach iter

/-- Kills a control consumer that is out of reach, or a failing guard, once no live node
references it. -/
def sweepVisit (reach : List Bool) (n : NodeId) : PassM Bool := do
  let s ← get
  let nd := s.g.node n
  if nd.isDead = true ∨ consumesControl nd.kind = false ∨ isJunkSink s.jk n = true then
    return false
  else if (reach.getD n true = false ∨ failingGuard s.g n = true) ∧ liveUseCount s.g n = 0 then
    kill n
  else return false

def sweepIterations (fuel : Nat) : Nat → PassM Unit
  | 0 => pure ()
  | iter + 1 => do
      let reach := reachable (← graph)
      rebuildRegions fuel (some reach) kMaxSweepIterations
      if ← sweepNodes (sweepVisit reach) fuel 0 then sweepIterations fuel iter

def unreachableSweep (fuel : Nat) : PassM Unit := sweepIterations fuel kMaxSweepIterations

/-! ## Branch normalization and null-check folding -/

/-- A live `Deopt` on the same control with the same frame state and id. -/
def deoptExists (g : Store) (ctrl fs : NodeId) (id : BitVec 32) : Bool :=
  (g.usesOf ctrl).any fun u =>
    let cand := g.node u.user
    !cand.isDead && cand.kind == .deopt && cand.numInputs == 2 && g.input u.user 1 == fs &&
      cand.payload == id

def branchVisit (n : NodeId) : PassM Bool := do
  let s ← get
  let g := s.g
  let nd := g.node n
  if nd.isDead = true ∨ isJunkSink s.jk n = true then return false
  else if nd.kind = .ifNode ∧ nd.numInputs = 2 then
    match constCondOf g (g.input n 1), projectionOf g n .ifTrue, projectionOf g n .ifFalse with
    | some v, some trueProj, some falseProj =>
      let keep := if v ≠ 0 then trueProj else falseProj
      let ctrl := g.input n 0
      if (g.node ctrl).isDead = false ∧ ctrl ≠ keep then replace keep ctrl
      return false
    | _, _, _ => return false
  else if nd.kind = .guardNode ∧ 2 ≤ nd.numInputs then
    match constCondOf g (g.input n 1) with
    | none => return false
    | some v =>
      let ctrl := g.input n 0
      let fs := g.input n 2
      if v ≠ 0 then replace n ctrl
      else if deoptExists g ctrl fs nd.payload2 = false then
        let _ ← making fun h => h.make .deopt [ctrl, fs] nd.payload2 0
      return false
  else return false

def runBranchNormalization (fuel : Nat) : PassM Unit := do
  let _ ← sweepNodes branchVisit fuel 0
  unreachableSweep fuel

def guardKindNullCheck : BitVec 8 := 1

/-- Folds `Guard(NullCheck, Not(IsNull(x)))` when `x` is never null. -/
def nullCheckVisit (n : NodeId) : PassM Bool := do
  let g ← graph
  let nd := g.node n
  if nd.isDead = true ∨ nd.kind ≠ .guardNode ∨ nd.numInputs < 3 ∨
      asByte nd.payload ≠ guardKindNullCheck then return false
  else
    let cond := g.input n 1
    let condNode := g.node cond
    if condNode.isDead = true ∨ condNode.kind ≠ .not ∨ condNode.numInputs < 1 then return false
    else
      let isnull := g.input cond 0
      let isnullNode := g.node isnull
      if isnullNode.isDead = true ∨ isnullNode.kind ≠ .isNull ∨ isnullNode.numInputs < 1 then
        return false
      else if isNeverNullNode g (g.input isnull 0) then
        replace n (g.input n 0)
        return false
      else return false

def runNullCheckFolding (fuel : Nat) : PassM Unit := do
  let _ ← sweepNodes nullCheckVisit fuel 0

end B2Compiler.Passes
