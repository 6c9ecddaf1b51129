import B2Compiler.Ir.Graph

/-!
# The storage of a graph

`Ir.Graph` is the graph as the passes see it.  This module is the container below
it: dense node records, one flat edge pool in which every node owns the slice
`[edgeOffset, edgeOffset + numInputs)`, a use list per node, and the side tables for
frame states, speculation metadata, dependencies and the replacement log.

A slice that grows is moved to the end of the pool; its old place is abandoned.  Input
counts are 16-bit numbers and the epoch is a 32-bit counter, and both wrap as they do
in the source.  Ids and pool offsets are not truncated.
-/

namespace B2Compiler.Ir

/-! ## Flags -/

def kInvalidNodeId : NodeId := 0xFFFFFFFF

def kInvalidFrameState : BitVec 32 := 0xFFFFFFFF

def kInvalidDependency : BitVec 32 := 0xFFFFFFFF

inductive NodeFlag where
  | dead | replaced | speculative | pinned | neverNull | onExceptionPath
  deriving DecidableEq, Repr

/-- The bit of a flag. -/
def NodeFlag.bit : NodeFlag → BitVec 16
  | .dead => 1
  | .replaced => 2
  | .speculative => 4
  | .pinned => 8
  | .neverNull => 16
  | .onExceptionPath => 32

/-- A typed bit mask over its raw word. -/
structure NodeFlags where
  raw : BitVec 16 := 0
  deriving DecidableEq, Repr, Inhabited

def NodeFlags.set (fs : NodeFlags) (f : NodeFlag) : NodeFlags := ⟨fs.raw ||| f.bit⟩

def NodeFlags.has (fs : NodeFlags) (f : NodeFlag) : Bool := fs.raw &&& f.bit != 0

/-- The number of a type in its enumeration. -/
def IRType.toTag : IRType → BitVec 32
  | .bottom => 0
  | .int => 1
  | .long => 2
  | .float => 3
  | .double => 4
  | .null => 5
  | .ref => 6
  | .tagged => 7
  | .int8 => 8
  | .int16 => 9
  | .vectorI8 => 10
  | .vectorI16 => 11
  | .vectorI32 => 12
  | .vectorI64 => 13
  | .vectorF32 => 14
  | .vectorF64 => 15

/-! ## Records -/

/-- One node record; its inputs live in the edge pool. -/
structure NodeRec where
  kind : NodeKind := .start
  flags : NodeFlags := {}
  edgeOffset : Nat := 0
  numInputs : Nat := 0
  reserved : BitVec 16 := 0
  payload : BitVec 32 := 0
  payload2 : BitVec 32 := 0
  constValue : BitVec 64 := 0
  specMeta : BitVec 32 := 0
  epoch : BitVec 32 := 0
  deriving DecidableEq, Repr, Inhabited

def NodeRec.isDead (nd : NodeRec) : Bool := nd.flags.has .dead

/-- Frame-state descriptor: everything of a frame state that is not an edge.  The
virtual objects are a slice of one flat table. -/
structure FrameStateDesc where
  method : BitVec 32 := 0
  pc : BitVec 32 := 0
  caller : BitVec 32 := kInvalidFrameState
  vobjOffset : Nat := 0
  vobjCount : Nat := 0
  deriving DecidableEq, Repr, Inhabited

inductive SpecMeta.Kind where
  | classHierarchyStable | methodFinal | typeMonomorphic | typeBimorphic
  | nullNeverSeen | boundsAlwaysValid | argumentConstant | loopTripCountProfile
  | staticProofCarried
  deriving DecidableEq, Repr, Inhabited

inductive SpecMeta.Source where
  | pgo | static | assumption
  deriving DecidableEq, Repr, Inhabited

inductive SpecMeta.Rollback where
  | none | deferredEffects | compensated
  deriving DecidableEq, Repr, Inhabited

/-- Speculation metadata. -/
structure SpecMeta where
  kind : SpecMeta.Kind := .typeMonomorphic
  source : SpecMeta.Source := .pgo
  confidence : BitVec 32 := 0
  guard : BitVec 32 := 0xFFFFFFFF
  deoptTarget : BitVec 32 := 0
  cost : BitVec 32 := 0
  dependency : BitVec 32 := kInvalidDependency
  rollback : SpecMeta.Rollback := .none
  deriving DecidableEq, Repr, Inhabited

inductive Dependency.Kind where
  | classHierarchy | methodBody | fieldFinality | profileCounter | staticProof
  deriving DecidableEq, Repr, Inhabited

/-- Invalidation dependency. -/
structure Dependency where
  kind : Dependency.Kind := .classHierarchy
  target : BitVec 32 := 0
  deriving DecidableEq, Repr, Inhabited

/-- Replacement log entry: `oldNode` was replaced by `newNode` at `epoch`. -/
structure Replacement where
  oldNode : NodeId := kInvalidNodeId
  newNode : NodeId := kInvalidNodeId
  epoch : BitVec 32 := 0
  deriving DecidableEq, Repr, Inhabited

/-- The container. -/
structure Store where
  nodes : List NodeRec
  edgePool : List NodeId
  uses : List (List Use)
  fsDesc : List FrameStateDesc := []
  fsVobjs : List NodeId := []
  specMetas : List SpecMeta := []
  deps : List Dependency := []
  replacements : List Replacement := []
  epoch : BitVec 32 := 0
  deriving DecidableEq, Repr, Inhabited

namespace Store

variable (g : Store)

/-! ## Reading -/

def nodeCount : Nat := g.nodes.length

/-- An id out of range reads the default record. -/
def node (n : NodeId) : NodeRec := g.nodes.getD n {}

def numInputs (n : NodeId) : Nat := (g.node n).numInputs

/-- The producer at a slot, the invalid id past the last input. -/
def input (n : NodeId) (slot : Nat) : NodeId :=
  let nd := g.node n
  if slot < nd.numInputs then g.edgePool.getD (nd.edgeOffset + slot) 0 else kInvalidNodeId

def usesOf (n : NodeId) : List Use := g.uses.getD n []

/-- The slice of the edge pool a node owns. -/
def inputs (n : NodeId) : List NodeId :=
  (g.edgePool.drop (g.node n).edgeOffset).take (g.node n).numInputs

/-- The virtual objects of a descriptor; a slice that does not fit reads empty. -/
def frameStateVobjs (id : Nat) : List NodeId :=
  match g.fsDesc[id]? with
  | some d =>
    if d.vobjOffset + d.vobjCount ≤ g.fsVobjs.length then
      (g.fsVobjs.drop d.vobjOffset).take d.vobjCount
    else []
  | none => []

/-! ## Making nodes -/

/-- Appends a node record with its slice; the count is cut to 16 bits, and each counted
input that names a node gains a use entry. -/
def makeRaw (kind : NodeKind) (inputs : List NodeId) (payload payload2 : BitVec 32)
    (constValue : BitVec 64) : Store × NodeId :=
  let id := g.nodes.length
  let num := inputs.length % 65536
  let nodes := g.nodes ++ [{ kind, edgeOffset := g.edgePool.length, numInputs := num,
                              payload, payload2, constValue }]
  let entry (us : List (List Use)) (p : NodeId × Nat) : List (List Use) :=
    if p.1 < nodes.length then us.modify p.1 (· ++ [⟨id, p.2⟩]) else us
  ({ g with
      nodes
      edgePool := g.edgePool ++ inputs
      uses := ((inputs.take num).zipIdx).foldl entry (g.uses ++ [[]]) }, id)

def make (kind : NodeKind) (inputs : List NodeId) (payload payload2 : BitVec 32) : Store × NodeId :=
  g.makeRaw kind inputs payload payload2 0

def constantI (v : BitVec 32) : Store × NodeId :=
  g.makeRaw .constantI [] 0 0 (v.signExtend 64)

def constantL (v : BitVec 64) : Store × NodeId := g.makeRaw .constantL [] 0 0 v

/-- The bits of a float, zero-extended. -/
def constantF (bits : BitVec 32) : Store × NodeId :=
  g.makeRaw .constantF [] 0 0 (bits.setWidth 64)

/-- The bits of a double. -/
def constantD (bits : BitVec 64) : Store × NodeId := g.makeRaw .constantD [] 0 0 bits

def constantNull : Store × NodeId := g.makeRaw .constantNull [] 0 0 0

def constantSym (sym : BitVec 32) : Store × NodeId := g.makeRaw .constantSym [] sym 0 0

def parameter (index : BitVec 16) (type : IRType) : Store × NodeId :=
  g.makeRaw .parameter [] (index.setWidth 32) type.toTag 0

/-! ## Side tables -/

def addFrameStateDesc (method pc caller : BitVec 32) (vobjs : List NodeId) : Store × Nat :=
  ({ g with
      fsDesc := g.fsDesc ++ [{ method, pc, caller, vobjOffset := g.fsVobjs.length,
                                vobjCount := vobjs.length }]
      fsVobjs := g.fsVobjs ++ vobjs }, g.fsDesc.length)

/-- Inserts one virtual object at the end of a descriptor's slice and shifts every other
descriptor whose slice starts at or after that place. -/
def appendFrameStateVobj (fs : Nat) (vobj : NodeId) : Store :=
  match g.fsDesc[fs]? with
  | none => g
  | some d =>
    let insertPos := d.vobjOffset + d.vobjCount
    { g with
      fsVobjs := g.fsVobjs.take insertPos ++ vobj :: g.fsVobjs.drop insertPos
      fsDesc := g.fsDesc.mapIdx fun i e =>
        if i = fs then { e with vobjCount := e.vobjCount + 1 }
        else if insertPos ≤ e.vobjOffset then { e with vobjOffset := e.vobjOffset + 1 }
        else e }

def makeFrameState (method pc : BitVec 32) (locals : List NodeId) (caller : BitVec 32)
    (vobjs : List NodeId) : Store × NodeId :=
  let (g', desc) := g.addFrameStateDesc method pc caller vobjs
  g'.makeRaw .frameState locals (BitVec.ofNat 32 desc) 0 0

def makeVirtualObject (classId : BitVec 32) (fieldValues : List NodeId) : Store × NodeId :=
  g.makeRaw .virtualObjectState fieldValues classId 0 0

def makeArrayVirtualObject (elemType : IRType) (length : NodeId) (elements : List NodeId) :
    Store × NodeId :=
  g.makeRaw .virtualObjectState (length :: elements) elemType.toTag 1 0

def addSpecMeta (sm : SpecMeta) : Store × Nat :=
  ({ g with specMetas := g.specMetas ++ [sm] }, g.specMetas.length)

def addDependency (dep : Dependency) : Store × Nat :=
  ({ g with deps := g.deps ++ [dep] }, g.deps.length)

/-- Metadata ids are stored plus one: zero means none. -/
def attachSpecMeta (n : NodeId) (id : BitVec 32) : Store :=
  { g with nodes := g.nodes.modify n fun nd =>
      { nd with specMeta := id + 1, flags := nd.flags.set .speculative } }

def removeFromUses (d user : NodeId) (slot : Nat) : Store :=
  { g with uses := g.uses.modify d fun l => l.erase ⟨user, slot⟩ }

def setInput (n : NodeId) (slot : Nat) (v : NodeId) : Store :=
  if n < g.nodes.length then
    let nd := g.node n
    if slot < nd.numInputs then
      let old := g.edgePool.getD (nd.edgeOffset + slot) 0
      if old = v then g
      else
        let moved := { g with edgePool := g.edgePool.set (nd.edgeOffset + slot) v }
        let removed := moved.removeFromUses old n slot
        if v < g.nodes.length then
          { removed with uses := removed.uses.modify v (· ++ [⟨n, slot⟩]) }
        else removed
    else g
  else g

/-- Moves the slice of `n` to the end of the pool and adds `v` to it; the count is a
16-bit number. -/
def appendInput (n v : NodeId) : Store :=
  if n < g.nodes.length then
    let nd := g.node n
    let num := (nd.numInputs + 1) % 65536
    let moved := { g with
      edgePool := g.edgePool ++ g.inputs n ++ [v]
      nodes := g.nodes.modify n fun nd =>
        { nd with edgeOffset := g.edgePool.length, numInputs := num } }
    if v < g.nodes.length then
      { moved with uses := g.uses.modify v (· ++ [⟨n, (num + 65535) % 65536⟩]) }
    else moved
  else g

/-- Rewires a snapshot of the users of `oldNode`, leaves a tombstone with the new epoch
and logs the replacement; refused when an id is out of range, the new node is a
tombstone or the two are the same. -/
def replaceNode (oldNode withNode : NodeId) : Store × BitVec 32 :=
  if oldNode < g.nodes.length ∧ withNode < g.nodes.length ∧
      (g.node withNode).isDead = false ∧ oldNode ≠ withNode then
    let rewired := (g.usesOf oldNode).foldl
      (fun h u =>
        if u.user < h.nodes.length ∧ u.slot < (h.node u.user).numInputs ∧
            h.edgePool.getD ((h.node u.user).edgeOffset + u.slot) 0 = oldNode then
          h.setInput u.user u.slot withNode
        else h) g
    let epoch := g.epoch + 1
    ({ rewired with
        epoch
        nodes := rewired.nodes.modify oldNode fun nd =>
          { nd with flags := (nd.flags.set .replaced).set .dead, epoch }
        replacements := rewired.replacements ++ [⟨oldNode, withNode, epoch⟩] }, epoch)
  else (g, 0)

/-- Leaves a tombstone; users are not rewired. -/
def killNode (n : NodeId) : Store :=
  if n < g.nodes.length then
    { g with
      epoch := g.epoch + 1
      nodes := g.nodes.modify n fun nd =>
        { nd with flags := nd.flags.set .dead, epoch := g.epoch + 1 } }
  else g

def nextEpoch : Store := { g with epoch := g.epoch + 1 }

/-- A fresh graph holds the start node only. -/
def fresh : Store := (makeRaw ⟨[], [], [], [], [], [], [], [], 0⟩ .start [] 0 0 0).1

end Store

/-- The mutating calls of the graph's interface. -/
inductive Call where
  | make (kind : NodeKind) (inputs : List NodeId) (payload payload2 : BitVec 32)
  | constantI (v : BitVec 32)
  | constantL (v : BitVec 64)
  | constantF (bits : BitVec 32)
  | constantD (bits : BitVec 64)
  | constantNull
  | constantSym (sym : BitVec 32)
  | parameter (index : BitVec 16) (type : IRType)
  | makeFrameState (method pc : BitVec 32) (locals : List NodeId) (caller : BitVec 32)
      (vobjs : List NodeId)
  | appendFrameStateVobj (fs : Nat) (vobj : NodeId)
  | makeVirtualObject (classId : BitVec 32) (fieldValues : List NodeId)
  | makeArrayVirtualObject (elemType : IRType) (length : NodeId) (elements : List NodeId)
  | addSpecMeta (sm : SpecMeta)
  | addDependency (dep : Dependency)
  | attachSpecMeta (n : NodeId) (id : BitVec 32)
  | setInput (n : NodeId) (slot : Nat) (v : NodeId)
  | appendInput (n v : NodeId)
  | replaceNode (oldNode withNode : NodeId)
  | killNode (n : NodeId)
  | nextEpoch
  deriving Repr

/-- What one call does. -/
def Store.step (g : Store) : Call → Store
  | .make kind inputs payload payload2 => (g.make kind inputs payload payload2).1
  | .constantI v => (g.constantI v).1
  | .constantL v => (g.constantL v).1
  | .constantF bits => (g.constantF bits).1
  | .constantD bits => (g.constantD bits).1
  | .constantNull => g.constantNull.1
  | .constantSym sym => (g.constantSym sym).1
  | .parameter index type => (g.parameter index type).1
  | .makeFrameState method pc locals caller vobjs =>
    (g.makeFrameState method pc locals caller vobjs).1
  | .appendFrameStateVobj fs vobj => g.appendFrameStateVobj fs vobj
  | .makeVirtualObject classId fieldValues => (g.makeVirtualObject classId fieldValues).1
  | .makeArrayVirtualObject elemType length elements =>
    (g.makeArrayVirtualObject elemType length elements).1
  | .addSpecMeta sm => (g.addSpecMeta sm).1
  | .addDependency dep => (g.addDependency dep).1
  | .attachSpecMeta n id => g.attachSpecMeta n id
  | .setInput n slot v => g.setInput n slot v
  | .appendInput n v => g.appendInput n v
  | .replaceNode oldNode withNode => (g.replaceNode oldNode withNode).1
  | .killNode n => g.killNode n
  | .nextEpoch => g.nextEpoch

/-- A sequence of calls. -/
def Store.run (g : Store) (calls : List Call) : Store := calls.foldl Store.step g

end B2Compiler.Ir
