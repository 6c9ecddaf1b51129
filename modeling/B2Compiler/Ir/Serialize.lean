import B2Compiler.Lib.Wire
import B2Compiler.Ir.Verifier

/-!
# Serialization and replay of graphs

The writer emits the image of a graph: nodes in id order, tombstones included, the side
tables in id order and the replacement log.  The reader rebuilds the graph through the
graph's own interface: nodes without inputs first, then all edges, then the side tables;
the replacement log re-tags nodes without rewiring.  A graph that parses and does not
verify is refused.
-/

namespace B2Compiler.Ir

open Lib

/-! ## The format -/

def kIrMagic : Nat := 0x52493242

/-- The version the writer emits. -/
def kIrFormatVersion : Nat := 2

/-- The oldest version the reader accepts. -/
def kIrMinReadVersion : Nat := 1

def nodeKindCount : Nat := 137

def putNode (nd : NodeImage) : List Byte :=
  leBytes 2 nd.kind.ctorIdx ++ (putWord 2 nd.flags.raw ++ (putWord 4 nd.payload ++
    (putWord 4 nd.payload2 ++ (putWord 8 nd.constValue ++ (putWord 4 nd.specMeta ++
    (putWord 4 nd.epoch ++ (leBytes 2 nd.inputs.length ++ (putWord 2 nd.reserved ++
    nd.inputs.flatMap (leBytes 4)))))))))

def putFrameState (d : FrameImage) : List Byte :=
  putWord 4 d.method ++ (putWord 4 d.pc ++ (putWord 4 d.caller ++
    (leBytes 4 d.vobjs.length ++ d.vobjs.flatMap (leBytes 4))))

def putSpecMeta (sm : SpecMeta) : List Byte :=
  leBytes 4 sm.kind.ctorIdx ++ (leBytes 4 sm.source.ctorIdx ++ (putWord 4 sm.confidence ++
    (putWord 4 sm.guard ++ (putWord 4 sm.deoptTarget ++ (putWord 4 sm.cost ++
    (putWord 4 sm.dependency ++ leBytes 4 sm.rollback.ctorIdx))))))

def putDependency (d : Dependency) : List Byte :=
  leBytes 4 d.kind.ctorIdx ++ putWord 4 d.target

def putReplacement (r : Replacement) : List Byte :=
  leBytes 4 r.oldNode ++ (leBytes 4 r.newNode ++ putWord 4 r.epoch)

/-- The tables of an image, in the order of the file. -/
def putTables (im : Image) : List Byte :=
  putTable putNode im.nodes ++ (putTable putFrameState im.frameStates ++
    (putTable putSpecMeta im.specMetas ++ (putTable putDependency im.deps ++
    putTable putReplacement im.replacements)))

def encode (version : Nat) (im : Image) : List Byte :=
  leBytes 4 kIrMagic ++ (leBytes 4 version ++ putTables im)

def serialize (g : Store) : List Byte := encode kIrFormatVersion g.image

def readNode : Reader String NodeImage := fun bs => do
  let (kind, bs) ← readLe 2 "truncated node record" bs
  let (flags, bs) ← readWord 2 16 "truncated node record" bs
  let (payload, bs) ← readWord 4 32 "truncated node record" bs
  let (payload2, bs) ← readWord 4 32 "truncated node record" bs
  let (constValue, bs) ← readWord 8 64 "truncated node record" bs
  let (specMeta, bs) ← readWord 4 32 "truncated node record" bs
  let (epoch, bs) ← readWord 4 32 "truncated node record" bs
  let (numInputs, bs) ← readLe 2 "truncated node record" bs
  let (reserved, bs) ← readWord 2 16 "truncated node record" bs
  if nodeKindCount ≤ kind then .error "node kind out of range"
  else if reserved ≠ 0 then .error "node record reserved field must be 0 (corrupt artifact)"
  else do
    let (inputs, bs) ← readMany (readLe 4 "truncated node inputs") numInputs bs
    return (⟨NodeKind.ofNat kind, ⟨flags⟩, payload, payload2, constValue, specMeta, epoch,
      reserved, inputs⟩, bs)

def readFrameState : Reader String FrameImage := fun bs => do
  let (method, bs) ← readWord 4 32 "truncated FrameState descriptor" bs
  let (pc, bs) ← readWord 4 32 "truncated FrameState descriptor" bs
  let (caller, bs) ← readWord 4 32 "truncated FrameState descriptor" bs
  let (vobjCount, bs) ← readLe 4 "truncated FrameState descriptor" bs
  let (vobjs, bs) ← readMany (readLe 4 "truncated FrameState vobj list") vobjCount bs
  return (⟨method, pc, caller, vobjs⟩, bs)

def readSpecMeta : Reader String SpecMeta := fun bs => do
  let (k, bs) ← readLe 4 "truncated SpecMeta record" bs
  let (src, bs) ← readLe 4 "truncated SpecMeta record" bs
  let (conf, bs) ← readWord 4 32 "truncated SpecMeta record" bs
  let (guard, bs) ← readWord 4 32 "truncated SpecMeta record" bs
  let (deopt, bs) ← readWord 4 32 "truncated SpecMeta record" bs
  let (cost, bs) ← readWord 4 32 "truncated SpecMeta record" bs
  let (dep, bs) ← readWord 4 32 "truncated SpecMeta record" bs
  let (rb, bs) ← readLe 4 "truncated SpecMeta record" bs
  if 8 < k ∨ 2 < src ∨ 2 < rb then .error "SpecMeta enum out of range"
  else .ok (⟨SpecMeta.Kind.ofNat k, SpecMeta.Source.ofNat src, conf, guard, deopt, cost, dep,
    SpecMeta.Rollback.ofNat rb⟩, bs)

def readDependency : Reader String Dependency := fun bs => do
  let (k, bs) ← readLe 4 "truncated Dependency record" bs
  let (target, bs) ← readWord 4 32 "truncated Dependency record" bs
  if 4 < k then .error "Dependency enum out of range"
  else .ok (⟨Dependency.Kind.ofNat k, target⟩, bs)

def readReplacement : Reader String Replacement := fun bs => do
  let (oldNode, bs) ← readLe 4 "truncated replacement entry" bs
  let (newNode, bs) ← readLe 4 "truncated replacement entry" bs
  let (epoch, bs) ← readWord 4 32 "truncated replacement entry" bs
  return (⟨oldNode, newNode, epoch⟩, bs)

/-! ## Replaying records -/

/-- Overwrites the fields of a node that making it does not set. -/
def patchNode (g : Store) (id : NodeId) (nd : NodeImage) : Store :=
  { g with nodes := g.nodes.modify id fun r =>
      { r with
        flags := nd.flags, constValue := nd.constValue, specMeta := nd.specMeta
        epoch := nd.epoch, reserved := 0 } }

/-- Node 0 is the start node of the fresh graph and is patched in place; every other
record makes a node without inputs.  The inputs are kept for the second pass. -/
def replayNode (i : Nat) (nd : NodeImage) (s : Store × List (List NodeId)) :
    Except String (Store × List (List NodeId)) :=
  if i = 0 then
    if nd.kind ≠ .start then .error "node 0 must be Start (corrupt artifact)"
    else .ok (patchNode s.1 0 nd, s.2 ++ [nd.inputs])
  else
    let made := s.1.make nd.kind [] nd.payload nd.payload2
    if made.2 ≠ i then .error "node id mismatch during replay"
    else .ok (patchNode made.1 made.2 nd, s.2 ++ [nd.inputs])

def appendInputs (g : Store) (n : NodeId) (vs : List NodeId) : Store :=
  vs.foldl (fun h v => h.appendInput n v) g

/-- The second pass over the nodes: all edges. -/
def replayEdges (g : Store) (pending : List (List NodeId)) : Store :=
  pending.zipIdx.foldl (fun h p => appendInputs h p.2 p.1) g

def replayFrameState (i : Nat) (d : FrameImage) (g : Store) : Except String Store :=
  let added := g.addFrameStateDesc d.method d.pc d.caller d.vobjs
  if added.2 ≠ i then .error "FrameState descriptor id mismatch during replay" else .ok added.1

def replaySpecMeta (i : Nat) (sm : SpecMeta) (g : Store) : Except String Store :=
  let added := g.addSpecMeta sm
  if added.2 ≠ i then .error "SpecMeta id mismatch during replay" else .ok added.1

def replayDependency (i : Nat) (d : Dependency) (g : Store) : Except String Store :=
  let added := g.addDependency d
  if added.2 ≠ i then .error "Dependency id mismatch during replay" else .ok added.1

/-- Re-tags a node without rewiring, appends the log entry and raises the epoch to the
entry's. -/
def Store.replayReplacement (g : Store) (r : Replacement) : Store :=
  if r.oldNode < g.nodes.length then
    { g with
      nodes := g.nodes.modify r.oldNode fun nd =>
        { nd with flags := (nd.flags.set .replaced).set .dead, epoch := r.epoch }
      replacements := g.replacements ++ [r]
      epoch := if g.epoch < r.epoch then r.epoch else g.epoch }
  else g

def replayReplacement (nodeCount : Nat) (_ : Nat) (r : Replacement) (g : Store) :
    Except String Store :=
  if nodeCount ≤ r.oldNode ∨ nodeCount ≤ r.newNode then
    .error "replacement entry node id out of range"
  else .ok (g.replayReplacement r)

/-- Magic and version. -/
def readHeader : Reader String Nat := fun bs => do
  let (magic, bs) ← readLe 4 "truncated header" bs
  let (version, bs) ← readLe 4 "truncated header" bs
  if magic ≠ kIrMagic then .error "bad magic (not a B-2 IR artifact)"
  else if version ≠ kIrFormatVersion ∧
      ¬ (kIrMinReadVersion ≤ version ∧ version < kIrFormatVersion) then
    .error "unsupported IR format version (Rule 31: stale artifact)"
  else .ok (version, bs)

/-- Parses and rebuilds into `g`; the load gate comes last. -/
def rebuildInto (bs : List Byte) (g : Store) : Except String Store := do
  let (_, bs) ← readHeader bs
  let (nodeCount, bs) ← readLe 4 "truncated node count" bs
  let ((g, pending), bs) ← readLoop readNode replayNode nodeCount 0 bs (g, [])
  let g := replayEdges g pending
  let (fsCount, bs) ← readLe 4 "truncated FrameState table" bs
  let (g, bs) ← readLoop readFrameState replayFrameState fsCount 0 bs g
  let (specCount, bs) ← readLe 4 "truncated SpecMeta table" bs
  let (g, bs) ← readLoop readSpecMeta replaySpecMeta specCount 0 bs g
  let (depCount, bs) ← readLe 4 "truncated Dependency table" bs
  let (g, bs) ← readLoop readDependency replayDependency depCount 0 bs g
  let (replCount, bs) ← readLe 4 "truncated replacement log" bs
  let (g, _) ← readLoop readReplacement (replayReplacement nodeCount) replCount 0 bs g
  return g

/-- Parse, rebuild and verify.  `none` when the verifier does not come back. -/
def deserializeInto (bs : List Byte) (g : Store) : Option (Except String Store) :=
  match rebuildInto bs g with
  | .error e => some (.error e)
  | .ok g' => do
      let vr ← g'.verify
      return if vr.ok then .ok g' else .error "replayed graph failed verification"

end B2Compiler.Ir
