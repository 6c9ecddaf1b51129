import B2Compiler.Lib.Flat
import B2Compiler.Passes.Fold

/-!
# Sparse conditional constant propagation

The optimistic analysis of the pass: a lattice value per node and an executability
mark per control node, driven by two first-in first-out work lists.  A node is on a
list at most once, so the source's in-queue flag is membership in the pending part
of the list.  Control is drained before values, every pop is charged to the budget,
and an overrun gives up before any rewrite.  After the first fixpoint, values that
are still unresolved but have a live user are forced down and the propagation
resumes; then the proven constants are written into the graph.

Left out are the telemetry counters and the sinks that the edges of a tombstone are
moved to; neither touches a live node.
-/

namespace B2Compiler.Passes

open Interp
open Ir
open Lib

def isUnaryEvalK : NodeKind → Bool
  | .negI | .not | .negL | .negF | .negD | .i2l | .l2i | .i2b | .i2c | .i2s | .i2f | .i2d
  | .l2f | .l2d | .f2i | .f2l | .f2d | .d2i | .d2l | .d2f => true
  | _ => false

/-- Two-input kinds the shared evaluator understands. -/
def isBinaryEvalK : NodeKind → Bool
  | .addI | .subI | .mulI | .divI | .remI | .shlI | .shrI | .ushrI | .andI | .orI | .xorI
  | .addL | .subL | .mulL | .divL | .remL | .shlL | .shrL | .ushrL | .andL | .orL | .xorL
  | .addF | .subF | .mulF | .divF | .remF | .addD | .subD | .mulD | .divD | .remD
  | .cmpI | .cmpL | .cmpFl | .cmpFg | .cmpDl | .cmpDg
  | .eqI | .neI | .ltI | .leI | .gtI | .geI => true
  | _ => false

/-- The kinds with a lattice transfer function, phis apart. -/
def isEvalK (k : NodeKind) : Bool :=
  isUnaryEvalK k || isBinaryEvalK k || k == .isNull || k == .refEq || k == .instanceOf

def isRegionLikeK (k : NodeKind) : Bool := k == .region || k == .loopBegin

/-- The kinds the pass evaluates and may replace. -/
def isSccpReplaceableK (k : NodeKind) : Bool := isEvalK k || k == .phi

/-! ## State -/

/-- Lattice values, executability marks and the two work lists. -/
structure Sccp where
  val : NodeId → Flat ConstVal
  exec : NodeId → Bool
  cfgQ : List NodeId
  ssaQ : List NodeId

section

variable (g : Graph) (F : FloatOps)

namespace Sccp

/-- Ids out of range read as no constant. -/
def valAt (s : Sccp) (n : NodeId) : Flat ConstVal :=
  if n < g.nodeCount then s.val n else .bot

def pushCfg (s : Sccp) (n : NodeId) : Sccp :=
  if g.live n && !s.cfgQ.contains n then { s with cfgQ := s.cfgQ ++ [n] } else s

def pushSsa (s : Sccp) (n : NodeId) : Sccp :=
  if g.live n && !s.ssaQ.contains n then { s with ssaQ := s.ssaQ ++ [n] } else s

def setVal (s : Sccp) (n : NodeId) (v : Flat ConstVal) : Sccp :=
  { s with val := Function.update s.val n v }

def setExec (s : Sccp) (n : NodeId) : Sccp :=
  { s with exec := Function.update s.exec n true }

/-! ## Control -/

/-- Control flows into `u`.  A merge is queued again even when it was executable: a
new executable input means its phis must meet again. -/
def markCtrlUser (s : Sccp) (u : NodeId) : Sccp :=
  if g.live u then
    if isRegionLikeK (g.kind u) then (s.setExec u).pushCfg g u
    else if s.exec u then s
    else (s.setExec u).pushCfg g u
  else s

/-- The users that consume `n` in a control or parent slot. -/
def ctrlUsers (n : NodeId) : List NodeId :=
  ((g.usesOf n).filter fun u =>
    g.live u.user && (g.input u.user u.slot == some n) &&
      (g.roleOfSlot u.user u.slot == .ctrl || g.roleOfSlot u.user u.slot == .parent)).map Use.user

def projectionOf (iff : NodeId) (want : NodeKind) : Option NodeId :=
  ((g.usesOf iff).find? fun u => u.slot == 0 && g.live u.user && g.kind u.user == want).map
    Use.user

def switchProjections (n : NodeId) : List NodeId :=
  ((g.usesOf n).filter fun u =>
    u.slot == 0 && g.live u.user &&
      (g.kind u.user == .switchCase || g.kind u.user == .switchDefault)).map Use.user

/-- The nodes control is passed to when `n` is processed with the present values. -/
def flowTargets (s : Sccp) (n : NodeId) : List NodeId :=
  match g.kind n with
  | .ifNode =>
    match g.input n 1 with
    | none => []
    | some c =>
      match s.valAt g c with
      | .top => []
      | .const (.i v) => (projectionOf g n (if v ≠ 0 then .ifTrue else .ifFalse)).toList
      | _ => (projectionOf g n .ifTrue).toList ++ (projectionOf g n .ifFalse).toList
  | .switchNode => switchProjections g n
  | .guardNode =>
    match g.input n 1 with
    | none => []
    | some c =>
      match s.valAt g c with
      | .top => []
      | .const (.i v) => if v = 0 then [] else ctrlUsers g n
      | _ => ctrlUsers g n
  | .returnNode | .unwind | .deopt | .endNode => []
  | _ => ctrlUsers g n

/-- The live phis of a merge. -/
def phiUsers (n : NodeId) : List NodeId :=
  ((g.usesOf n).filter fun u =>
    u.slot == 0 && g.live u.user && g.kind u.user == .phi).map Use.user

/-- Processes an executable control node: a merge wakes its phis, then control is
passed on. -/
def processCfg (s : Sccp) (n : NodeId) : Sccp :=
  if g.live n && s.exec n then
    let woken := if isRegionLikeK (g.kind n) then (phiUsers g n).foldl (pushSsa g) s else s
    (woken.flowTargets g n).foldl (markCtrlUser g) woken
  else s

/-! ## Values -/

/-- Meet over the executable inputs of the merge; `j` numbers the inputs. -/
def phiMeet (s : Sccp) (n : NodeId) : Flat ConstVal → List (NodeId × Nat) → Flat ConstVal
  | acc, [] => acc
  | acc, (pred, j) :: rest =>
    if g.live pred && s.exec pred then
      match g.input n (j + 1) with
      | none => .bot
      | some v => phiMeet s n (acc.meet (s.valAt g v)) rest
    else phiMeet s n acc rest

def evalPhi (s : Sccp) (n : NodeId) : Flat ConstVal :=
  match g.input n 0 with
  | none => .bot
  | some r =>
    if g.live r && isRegionLikeK (g.kind r) then
      if s.exec r then s.phiMeet g n .top (g.node r).inputs.zipIdx else .top
    else .bot

def operand (s : Sccp) (n : NodeId) (slot : Nat) : Flat ConstVal :=
  match g.input n slot with
  | none => .bot
  | some v => s.valAt g v

/-- A live input known not to be null. -/
def neverNullInput (n : NodeId) (slot : Nat) : Bool :=
  match g.input n slot with
  | none => false
  | some x => g.live x && g.isNeverNullNode x

def evalNullTest (s : Sccp) (n : NodeId) : Flat ConstVal :=
  let a := s.operand g n 0
  if a = .const .null then .const (.i (if g.kind n = .isNull then 1 else 0))
  else if neverNullInput g n 0 then .const (.i 0)
  else if a = .top then .top
  else .bot

def evalRefEq (s : Sccp) (n : NodeId) : Flat ConstVal :=
  let a := s.operand g n 0
  let b := s.operand g n 1
  if (g.input n 0).isSome ∧ g.input n 0 = g.input n 1 then .const (.i 1)
  else if a = .const .null ∧ b = .const .null then .const (.i 1)
  else if (a = .const .null ∧ neverNullInput g n 1) ∨ (b = .const .null ∧ neverNullInput g n 0)
    then .const (.i 0)
  else if a = .top ∨ b = .top then .top
  else .bot

def ofFold : Option ConstVal → Flat ConstVal
  | some c => .const c
  | none => .bot

def evalUnary (s : Sccp) (n : NodeId) : Flat ConstVal :=
  match s.operand g n 0 with
  | .bot => .bot
  | .top => .top
  | .const a => ofFold (evalUnaryOp F (g.kind n) a)

def evalBinary (s : Sccp) (n : NodeId) : Flat ConstVal :=
  match s.operand g n 0, s.operand g n 1 with
  | .bot, _ => .bot
  | _, .bot => .bot
  | .top, _ => .top
  | _, .top => .top
  | .const a, .const b => ofFold (evalBinOp F (g.kind n) a b)

/-- The lattice value of a node from its operands. -/
def evalNode (s : Sccp) (n : NodeId) : Flat ConstVal :=
  let k := g.kind n
  if k = .phi then s.evalPhi g n
  else if k = .isNull ∨ k = .instanceOf then s.evalNullTest g n
  else if k = .refEq then s.evalRefEq g n
  else if isUnaryEvalK k then s.evalUnary g F n
  else s.evalBinary g F n

/-- Wakes one user of a node whose value descended. -/
def pushUser (s : Sccp) (u : NodeId) : Sccp :=
  if g.live u then
    if g.kind u = .ifNode ∨ g.kind u = .guardNode ∨ g.kind u = .switchNode then s.pushCfg g u
    else if isEvalK (g.kind u) || g.kind u == .phi then s.pushSsa g u
    else s
  else s

def pushUsersOf (s : Sccp) (n : NodeId) : Sccp :=
  ((g.usesOf n).map Use.user).foldl (pushUser g) s

/-- Re-evaluates a node and wakes its users on a strict descent. -/
def processSsa (s : Sccp) (n : NodeId) : Sccp :=
  if g.live n && (isEvalK (g.kind n) || g.kind n == .phi) then
    let nv := s.evalNode g F n
    if (s.val n).rank < nv.rank then (s.setVal n nv).pushUsersOf g n else s
  else s

/-! ## The run -/

/-- Drains both lists, control first, within the budget left; `none` is an overrun. -/
def propagate : Nat → Sccp → Option (Nat × Sccp)
  | 0, s => if s.cfgQ = [] ∧ s.ssaQ = [] then some (0, s) else none
  | budget + 1, s =>
    match s.cfgQ, s.ssaQ with
    | n :: rest, _ => propagate budget (processCfg g { s with cfgQ := rest } n)
    | [], n :: rest => propagate budget (processSsa g F { s with ssaQ := rest } n)
    | [], [] => some (budget + 1, s)

/-- Is `n` an unresolved value that somebody reads? -/
def isUnresolved (s : Sccp) (n : NodeId) : Bool :=
  g.live n && s.val n == .top && (isEvalK (g.kind n) || g.kind n == .phi) && g.liveUseCount n != 0

/-- Forces one unresolved value down. -/
def completeNode (p : Sccp × Bool) (n : NodeId) : Sccp × Bool :=
  if p.1.isUnresolved g n then ((p.1.setVal n .bot).pushUsersOf g n, true) else p

/-- Forces every unresolved value down, in id order; the flag says whether any was. -/
def complete (s : Sccp) : Sccp × Bool :=
  (List.range g.nodeCount).foldl (completeNode g) (s, false)

/-- Alternates completion and propagation.  Each productive completion lowers a node
for good, so `rounds` above the node count is never exhausted. -/
def solve : Nat → Nat → Sccp → Option (Nat × Sccp)
  | 0, _, _ => none
  | rounds + 1, budget, s =>
    match s.complete g with
    | (_, false) => some (budget, s)
    | (s', true) =>
      match propagate g F budget s' with
      | none => none
      | some (budget', s'') => solve rounds budget' s''

/-- Seeds one node: constants resolve to themselves, control enters at the start node,
evaluable values begin unresolved, everything else is no constant. -/
def seedNode (s : Sccp) (n : NodeId) : Sccp :=
  if g.isDead n then s
  else match constOf g n with
    | some c => s.setVal n (.const c)
    | none =>
      if n = Graph.startNode then (s.setExec n).pushCfg g n
      else if isEvalK (g.kind n) || g.kind n == .phi then (s.setVal n .top).pushSsa g n
      else s.setVal n .bot

def initial : Sccp := ⟨fun _ => .top, fun _ => false, [], []⟩

def seed : Sccp := (List.range g.nodeCount).foldl (seedNode g) initial

/-- The fixpoint, with the budget left, or `none` on an overrun. -/
def analyze (budget : Nat) : Option (Nat × Sccp) :=
  match propagate g F budget (seed g) with
  | none => none
  | some (budget', s) => solve g F (g.nodeCount + 1) budget' s

end Sccp

/-! ## Rewriting -/

/-- Phi typing that leaves out the inputs already on the path; `none` when the query
does not come back. -/
def typeOfNoCycle : Nat → List NodeId → NodeId → Option IRType
  | 0, _, _ => none
  | fuel + 1, onPath, n =>
    if g.kind n ≠ .phi then g.resultTypeOf (g.nodeCount + 1) n
    else if n ∈ onPath then some .bottom
    else
      let joinOne (acc : Option IRType) (v : NodeId) : Option (Option IRType) :=
        (typeOfNoCycle fuel (n :: onPath) v).map fun t =>
          some (acc.elim t fun a => a.join t)
      let joined : Option (Option IRType) :=
        ((g.node n).inputs.tail.filter (· ∉ n :: onPath)).foldlM joinOne none
      joined.map fun acc => acc.getD .bottom

end

/-- The rewrite in progress: the graph, the budget, the interned constants and the
replacements made. -/
structure Rewrite where
  graph : Graph
  budget : Nat
  exceeded : Bool := false
  intern : List (ConstVal × NodeId) := []
  replaced : List (NodeId × NodeId) := []

/-- Makes the constant node for a value and remembers it. -/
def Rewrite.addConst (r : Rewrite) (c : ConstVal) : Rewrite × NodeId :=
  let (graph, id) := makeConstNode r.graph c
  ({ r with graph := graph, intern := (c, id) :: r.intern }, id)

/-- The interned constant node for a value, made on first need. -/
def Rewrite.internConst (r : Rewrite) (c : ConstVal) : Rewrite × NodeId :=
  match r.intern.lookup c with
  | some id => if r.graph.live id then (r, id) else r.addConst c
  | none => r.addConst c

/-- Charges the budget and rewires the users of `n` to the constant. -/
def Rewrite.replace (r : Rewrite) (n id : NodeId) : Rewrite :=
  match r.budget with
  | 0 => { r with exceeded := true }
  | budget + 1 =>
    match r.graph.replaceNode n id with
    | none => { r with budget := budget }
    | some graph =>
      { r with graph := graph, budget := budget, replaced := r.replaced ++ [(n, id)] }

/-- Replaces one node by its constant when the types agree; `none` is a typing query
that does not come back. -/
def applyNode (s : Sccp) (r : Rewrite) (n : NodeId) : Option Rewrite :=
  if !r.exceeded && r.graph.live n && isSccpReplaceableK (r.graph.kind n) then
    match s.val n with
    | .const c =>
      match typeOfNoCycle r.graph (r.graph.nodeCount + 1) [] n with
      | none => none
      | some type =>
        if c.flavorType = type then
          let (r', id) := r.internConst c
          some (r'.replace n id)
        else some r
    | _ => some r
  else some r

/-- The rewrite phase, in id order over the nodes present at its start. -/
def apply (g : Graph) (s : Sccp) (budget : Nat) : Option Rewrite :=
  (List.range g.nodeCount).foldlM (applyNode s) { graph := g, budget := budget }

/-- The pass: analysis, then rewriting; on an overrun of the analysis the graph is
left alone. -/
def runSCCP (F : FloatOps) (g : Graph) (budget : Nat) : Option Rewrite :=
  match Sccp.analyze g F budget with
  | none => some { graph := g, budget := 0, exceeded := true }
  | some (budget', s) => apply g s budget'

end B2Compiler.Passes
