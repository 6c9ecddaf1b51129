import B2Compiler.Ir.Node

/-!
# The graph: nodes, edges and def-use lists

Nodes live in creation order; node 0 is `Start`.  Use lists are stored beside the
nodes and updated by the primitives that move an edge.  Their invariant, `UseDef`,
says that an entry `(user, slot)` stands in the list of a node exactly when that
user reads the node at that slot; the order of a list is the order in which edges
were made.  A replaced node stays in place as a tombstone.
-/

namespace B2Compiler.Ir

open IRType

structure Use where
  user : NodeId
  slot : Nat
  deriving DecidableEq, Repr, Inhabited

/-- The sea-of-nodes graph. -/
structure Graph where
  nodes : List Node
  uses : List (List Use)
  deriving DecidableEq, Repr, Inhabited

namespace Graph

variable (g : Graph)

/-! ## Reading the graph -/

/-- The start node is the first one made. -/
def startNode : NodeId := 0

def nodeCount : Nat := g.nodes.length

/-- An id out of range reads a default record. -/
def node (n : NodeId) : Node := g.nodes.getD n { kind := .start }

def kind (n : NodeId) : NodeKind := (g.node n).kind

def isDead (n : NodeId) : Bool := (g.node n).dead

/-- In range and no tombstone. -/
def live (n : NodeId) : Bool := decide (n < g.nodeCount) && !g.isDead n

def numInputs (n : NodeId) : Nat := (g.node n).inputs.length

/-- The producer at a slot, `none` past the last input. -/
def input (n : NodeId) (slot : Nat) : Option NodeId := (g.node n).inputs[slot]?

def usesOf (n : NodeId) : List Use := g.uses.getD n []

/-- Role of an input slot: the trailing frame state, the fixed prefix, then the
appended inputs. -/
def roleOfSlot (n : NodeId) (slot : Nat) : InputRole :=
  let row := info (g.kind n)
  if g.numInputs n ≤ slot then .none
  else if row.hasFrameState && slot + 1 == g.numInputs n then .frameState
  else match row.roles[slot]? with
    | some role => role
    | none => row.variadicRole.getD .none

/-- Values known not to be null: fresh allocations, interned symbols and nodes that
carry the flag. -/
def isNeverNullNode (n : NodeId) : Bool :=
  !g.isDead n && ((g.node n).neverNull ||
      match g.kind n with
      | .new | .newArray | .newRefArray | .newMultiArray | .materialize
      | .constantSym => true
      | _ => false)

/-- Number of use-list entries whose user is no tombstone. -/
def liveUseCount (n : NodeId) : Nat :=
  (g.usesOf n).countP fun u => !g.isDead u.user

/-- The def-use invariant the graph's primitives maintain. -/
def UseDef : Prop :=
  ∀ (n u : NodeId) (slot : Nat), n < g.nodeCount → u < g.nodeCount →
    (⟨u, slot⟩ ∈ g.usesOf n ↔ g.input u slot = some n)

/-- Appends a node; every in-range input gains a use entry. -/
def make (nd : Node) : Graph × NodeId :=
  let id := g.nodeCount
  let entry (us : List (List Use)) (p : NodeId × Nat) : List (List Use) :=
    us.modify p.1 (· ++ [⟨id, p.2⟩])
  (⟨g.nodes ++ [nd], (nd.inputs.zipIdx).foldl entry (g.uses ++ [[]])⟩, id)

/-- Moves one input edge and its use entry. -/
def setInput (n : NodeId) (slot : Nat) (v : NodeId) : Graph :=
  match g.input n slot with
  | none => g
  | some old =>
    if old = v then g
    else
      ⟨g.nodes.modify n fun nd => { nd with inputs := nd.inputs.set slot v },
        ((g.uses.modify old fun l => l.erase ⟨n, slot⟩).modify v (· ++ [⟨n, slot⟩]))⟩

/-- Rewires every user of `old` to `new` and leaves a tombstone; refused when `new`
is itself a tombstone or `old`. -/
def replaceNode (old new : NodeId) : Option Graph :=
  if old < g.nodeCount ∧ new < g.nodeCount ∧ g.isDead new = false ∧ old ≠ new then
    let rewired := (g.usesOf old).foldl
      (fun h u => if h.input u.user u.slot = some old then h.setInput u.user u.slot new else h) g
    some { rewired with
      nodes := rewired.nodes.modify old fun nd => { nd with dead := true } }
  else none

/-- The first loop of the verifier's node check on one input: the id is in range, the
edge is no self reference (a merge may carry itself around a back edge), and the
producer is alive. -/
def inputOk (n : NodeId) (slot : Nat) (v : NodeId) : Bool :=
  decide (v < g.nodeCount) && !(v == n && !(g.kind n == .phi && decide (1 ≤ slot))) && !g.isDead v

/-- The shapes of merges: a phi hangs off a merge and has one value per predecessor, a
merge has at least two predecessors, a return carries at most one value. -/
def mergeShapeOk (n : NodeId) : Bool :=
  match g.kind n with
  | .phi =>
    match g.input n 0 with
    | none => false
    | some r =>
      (g.kind r == .region || g.kind r == .loopBegin) && g.numInputs n == g.numInputs r + 1
  | .region | .loopBegin => decide (2 ≤ g.numInputs n)
  | .returnNode => decide (g.numInputs n ≤ 2)
  | _ => true

/-- Every live node passes both. -/
def structureOk : Bool :=
  (List.range g.nodeCount).all fun n =>
    g.isDead n || (((g.node n).inputs.zipIdx).all fun p => g.inputOk n p.2 p.1) && g.mergeShapeOk n

/-- The reads a result type depends on: `bitCast` and `phi` ask their inputs.  `none`
stands for a query that does not come back within `fuel` nested calls. -/
def resultTypeOf : Nat → NodeId → Option IRType
  | 0, _ => none
  | fuel + 1, n =>
    let nd := g.node n
    match nd.kind with
    | .loadField | .loadStatic | .unboxPrimitive | .parameter
    | .callStatic | .callVirtual | .callInterface | .callDynamic => some (ofTag nd.payload2)
    | .loadElem => some (ofTag nd.payload)
    | .callExcept | .loadException => some .ref
    | .new | .newArray | .newRefArray | .newMultiArray | .constantSym | .checkCast
    | .materialize | .compressedRefDecode | .boxPrimitive | .virtualObjectState => some .ref
    | .constantL | .addL | .subL | .mulL | .divL | .remL | .negL | .shlL | .shrL
    | .ushrL | .andL | .orL | .xorL | .signExtend | .zeroExtend | .i2l | .f2l | .d2l => some .long
    | .constantF | .addF | .subF | .mulF | .divF | .remF | .negF | .i2f | .l2f | .d2f =>
      some .float
    | .constantD | .addD | .subD | .mulD | .divD | .remD | .negD | .i2d | .l2d | .f2d =>
      some .double
    | .constantNull => some .null
    | .constantI | .arrayLength | .instanceOf | .compressedRefEncode
    | .addI | .subI | .mulI | .divI | .remI | .negI | .shlI | .shrI | .ushrI | .andI
    | .orI | .xorI | .cmpI | .i2b | .i2c | .i2s | .truncate | .not | .isNull | .refEq
    | .eqI | .neI | .ltI | .leI | .gtI | .geI | .cmpL | .cmpFl | .cmpFg | .cmpDl
    | .cmpDg | .l2i | .f2i | .d2i => some .int
    | .bitCast =>
      match nd.inputs with
      | [] => some .bottom
      | v :: _ => resultTypeOf fuel v
    | .phi =>
      match nd.inputs.tail with
      | [] => some .bottom
      | v :: vs => do
          let t ← resultTypeOf fuel v
          vs.foldlM (fun t w => do return t.join (← resultTypeOf fuel w)) t
    | .vectorBroadcast | .vectorPack => some (ofTag nd.payload).vectorOfLane
    | .vectorOp | .vectorMaskOp | .vectorInsert | .vectorLoad =>
      some (ofTag nd.payload2).vectorOfLane
    | .vectorExtract | .vectorReduce => some (ofTag nd.payload2)
    | .tagValue => some .tagged
    | .untagValue => some (ofRep nd.payload2)
    | _ => some .bottom

end Graph

end B2Compiler.Ir
