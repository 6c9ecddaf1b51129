import B2Compiler.Ir.Image

/-!
# The graph verifier

The verifier goes over the graph in six passes and collects diagnostics; a graph is
accepted when there are none.  It reads the graph's image, and of the use lists only
whether they are empty.

Operand types are asked through `resultTypeOf`, which follows phis without a visited
set.  The verifier does not come back from a graph on which such a question has no
answer; here its result is then `none`.
-/

namespace B2Compiler.Ir

open IRType

/-- A diagnostic: the node it is about and its text. -/
structure VerifyDiag where
  node : NodeId
  message : String
  deriving DecidableEq, Repr, Inhabited

structure VerifyResult where
  ok : Bool
  diags : List VerifyDiag
  deriving DecidableEq, Repr, Inhabited

/-- Cap on the reported diagnostics. -/
def kMaxDiags : Nat := 100

/-! ## Classification of kinds -/

def producesControl : NodeKind → Bool
  | .start | .region | .ifTrue | .ifFalse | .switchCase | .switchDefault | .loopBegin
  | .loopEnd | .loopExit | .callStatic | .callVirtual | .callInterface | .callDynamic
  | .callExcept | .loadException | .ifNode | .switchNode | .loadField | .storeField
  | .loadStatic | .storeStatic | .loadElem | .storeElem | .memBar | .monitorEnter
  | .monitorExit | .new | .newArray | .newRefArray | .newMultiArray | .classInit
  | .checkCast | .guardNode | .repTransitionGuard | .materialize | .vectorLoad
  | .vectorStore => true
  | _ => false

/-- Kinds a memory input may name; a phi merges memory states. -/
def producesMemoryState : NodeKind → Bool
  | .start | .storeField | .storeStatic | .storeElem | .memBar | .monitorEnter
  | .monitorExit | .new | .newArray | .newRefArray | .newMultiArray | .classInit
  | .callStatic | .callVirtual | .callInterface | .callDynamic | .materialize
  | .vectorStore | .phi => true
  | _ => false

def isTerminal : NodeKind → Bool
  | .returnNode | .unwind | .deopt | .endNode => true
  | _ => false

def isCallKind : NodeKind → Bool
  | .callStatic | .callVirtual | .callInterface | .callDynamic => true
  | _ => false

/-- Expected operand types of binary arithmetic and comparisons. -/
def binaryOperandTypes : NodeKind → Option (IRType × IRType)
  | .addI | .subI | .mulI | .divI | .remI | .shlI | .shrI | .ushrI | .andI | .orI | .xorI
  | .cmpI | .eqI | .neI | .ltI | .leI | .gtI | .geI => some (.int, .int)
  | .refEq => some (.ref, .ref)
  | .addL | .subL | .mulL | .divL | .remL | .andL | .orL | .xorL | .cmpL => some (.long, .long)
  | .shlL | .shrL | .ushrL => some (.long, .int)
  | .addF | .subF | .mulF | .divF | .remF | .cmpFl | .cmpFg => some (.float, .float)
  | .addD | .subD | .mulD | .divD | .remD | .cmpDl | .cmpDg => some (.double, .double)
  | _ => none

/-- Expected operand type of unary arithmetic and conversions. -/
def unaryOperandType : NodeKind → Option IRType
  | .negI | .not => some .int
  | .isNull => some .ref
  | .negL => some .long
  | .negF => some .float
  | .negD => some .double
  | .i2l | .i2f | .i2d | .i2b | .i2c | .i2s | .signExtend | .zeroExtend => some .int
  | .l2i | .l2f | .l2d | .truncate => some .long
  | .f2i | .f2l | .f2d => some .float
  | .d2i | .d2l | .d2f => some .double
  | _ => none

/-- Operations a vector node may carry, by number: add, sub, mul, div, rem, and, or,
xor, min, max, sum. -/
def isLegalElementWiseOp (op : BitVec 8) (lane : RawType) : Bool :=
  if lane = int8.raw ∨ lane = int16.raw ∨ lane = int.raw ∨
      lane = long.raw then decide (op.toNat ≤ 9)
  else if lane = float.raw ∨ lane = double.raw then
    [0, 1, 2, 3, 4, 8, 9].contains op.toNat
  else false

def isLegalReductionOp (op : BitVec 8) (lane : RawType) : Bool :=
  if lane = int8.raw ∨ lane = int16.raw ∨ lane = int.raw ∨
      lane = long.raw then [10, 8, 9, 5, 6, 7].contains op.toNat
  else if lane = float.raw ∨ lane = double.raw then
    [10, 8, 9].contains op.toNat
  else false

/-- A power of two between 2 and 64. -/
def lanesOk (lanes : Nat) : Bool := [2, 4, 8, 16, 32, 64].contains lanes

namespace Image

variable (im : Image) (used : NodeId → Bool)

def validId (n : NodeId) : Bool := n != kInvalidNodeId && decide (n < im.nodeCount)

/-- A question about a type takes one nested call per node at most, if it ends. -/
def typeOf (n : NodeId) : Option RawType := im.resultTypeOf (im.nodeCount + 1) n

/-- The first value input, through nested phis, that produces no memory state; `fuel`
counts down to the nesting depth at which the outer phi itself is reported. -/
def memoryPhiOffender : Nat → NodeId → Option NodeId
  | 0, phi => some phi
  | fuel + 1, phi =>
    (im.node phi).inputs.tail.findSome? fun v =>
      if v = phi then none
      else if !im.validId v then none
      else if (im.node v).kind = .phi then memoryPhiOffender fuel v
      else if producesMemoryState (im.node v).kind then none
      else some v

/-! ## Pass 1: structure, roles, types -/

def checkOperandType (n operand : NodeId) (want : RawType) (what : String) :
    Option (List VerifyDiag) :=
  if !im.validId operand then some []
  else do
    let got ← im.typeOf operand
    if RawType.isAssignable got want then return []
    else
      let gotName := RawType.name got
      let wantName := RawType.name want
      return [⟨n, s!"{what}: operand n{operand} has type {gotName}, expected {wantName}"⟩]

/-- Ids alive, no self reference; a phi may carry itself around a back edge. -/
def checkInputs (n : NodeId) : List VerifyDiag :=
  let nd := im.node n
  nd.inputs.zipIdx.flatMap fun (v, s) =>
    if !im.validId v then [⟨n, s!"input slot {s}: dangling NodeId {v}"⟩]
    else if v = n ∧ ¬ (nd.kind = .phi ∧ 1 ≤ s) then [⟨n, s!"input slot {s}: self reference"⟩]
    else if im.isDead v then [⟨n, s!"input slot {s}: n{v} is dead"⟩]
    else []

/-- Fixed prefix, appended inputs, trailing frame state. -/
def checkSignature (n : NodeId) : List VerifyDiag :=
  let nd := im.node n
  let row := info nd.kind
  let name := nd.kind.name
  let num := nd.inputs.length
  let minInputs := row.roles.length + if row.hasFrameState then 1 else 0
  (if num < minInputs then
    [⟨n, s!"{name}: expected at least {minInputs} inputs, found {num}"⟩] else []) ++
  (if row.variadicRole.isNone ∧ num ≠ minInputs then
    [⟨n, s!"{name}: expected exactly {minInputs} inputs, found {num} (kind is not variadic)"⟩]
    else []) ++
  (if row.hasFrameState ∧ minInputs ≤ num then
    let fs := im.input n (num - 1)
    if im.validId fs ∧ (im.node fs).kind ≠ .frameState then
      [⟨n, "last input must be a FrameState (Rule 5)"⟩] else []
    else [])

/-- The role of a slot, by the registry. -/
def roleAt (n : NodeId) (s : Nat) : InputRole :=
  let row := info (im.node n).kind
  match row.roles[s]? with
  | some role => role
  | none =>
    if row.hasFrameState ∧ s + 1 = im.numInputs n then .frameState
    else row.variadicRole.getD .none

def checkRoles (n : NodeId) : List VerifyDiag :=
  let nd := im.node n
  nd.inputs.zipIdx.flatMap fun (v, s) =>
    if !im.validId v then []
    else
      let prod := (im.node v).kind
      let prodName := prod.name
      let ndName := nd.kind.name
      (match im.roleAt n s with
        | .ctrl =>
          if producesControl prod then []
          else [⟨n, s!"ctrl input slot {s}: n{v} ({prodName}) does not produce control"⟩]
        | .mem =>
          if !producesMemoryState prod then
            [⟨n, s!"mem input slot {s}: n{v} ({prodName}) does not produce memory state"⟩]
          else if prod = .phi then
            match im.memoryPhiOffender (im.nodeCount + 2) v with
            | none => []
            | some off =>
              let offName := (im.node off).kind.name
              [⟨n, s!"mem input slot {s}: Phi n{v} has value input n{off} ({offName}) which does not produce memory state"⟩]
          else []
        | .frameState =>
          if prod = .frameState then []
          else [⟨n, s!"framestate input slot {s}: n{v} is not a FrameState"⟩]
        | .parent | .data | .none => []) ++
      (if prod = .undef ∧ nd.kind ≠ .frameState ∧ ¬ (nd.kind = .phi ∧ 1 ≤ s) then
        [⟨n, s!"Undef may only feed a FrameState or a Phi value input; n{n} ({ndName}) reads it at slot {s}"⟩]
        else [])

/-- Projections hang off their branch, switch or call. -/
def checkProjectionParent (n : NodeId) : List VerifyDiag :=
  let nd := im.node n
  let name := nd.kind.name
  match nd.inputs with
  | [] => []
  | p :: _ =>
    if !im.validId p then []
    else
      let parent := (im.node p).kind
      match nd.kind with
      | .ifTrue | .ifFalse =>
        if parent = .ifNode then [] else [⟨n, s!"{name} input must be a If node"⟩]
      | .switchCase | .switchDefault =>
        if parent = .switchNode then [] else [⟨n, s!"{name} input must be a Switch node"⟩]
      | .callExcept =>
        if isCallKind parent then [] else [⟨n, "CallExcept input must be a Call node"⟩]
      | _ => []

/-- Shapes of merges and returns. -/
def checkMergeShapes (n : NodeId) : List VerifyDiag :=
  let nd := im.node n
  let num := nd.inputs.length
  match nd.kind with
  | .phi =>
    match nd.inputs with
    | [] => []
    | region :: _ =>
      if !im.validId region then []
      else
        let r := im.node region
        if r.kind ≠ .region ∧ r.kind ≠ .loopBegin then
          [⟨n, "Phi input 0 must be a Region or LoopBegin"⟩]
        else if num ≠ r.inputs.length + 1 then
          let preds := r.inputs.length
          let values := num - 1
          [⟨n, s!"Phi input count must be 1 + region predecessors ({preds}), found {values}"⟩]
        else []
  | .region =>
    if num < 2 then [⟨n, "Region needs at least 2 predecessors at verification time"⟩] else []
  | .loopBegin =>
    if num < 2 then [⟨n, "LoopBegin needs an entry and at least one backedge"⟩] else []
  | .returnNode => if 1 < num - 1 then [⟨n, "Return takes at most one value input"⟩] else []
  | _ => []

/-- The typed operands of the other kinds: the least input count at which they are
looked at, and slot, type and name of each. -/
def operandRows (nd : NodeImage) : Nat × List (Nat × RawType × String) :=
  match nd.kind with
  | .ifNode => (2, [(1, int.raw, "If condition")])
  | .switchNode => (2, [(1, int.raw, "Switch selector")])
  | .guardNode => (2, [(1, int.raw, "Guard condition")])
  | .unwind => (2, [(1, ref.raw, "Unwind exception")])
  | .loadField => (3, [(2, ref.raw, "LoadField object")])
  | .storeField => (4, [(2, ref.raw, "StoreField object")])
  | .loadElem => (4, [(2, ref.raw, "LoadElem array"), (3, int.raw, "LoadElem index")])
  | .storeElem =>
    (5, [(2, ref.raw, "StoreElem array"), (3, int.raw, "StoreElem index"),
      (4, asByte nd.payload, "StoreElem value")])
  | .arrayLength => (1, [(0, ref.raw, "ArrayLength array")])
  | .monitorEnter | .monitorExit => (3, [(2, ref.raw, "monitor object")])
  | .newArray | .newRefArray => (2, [(1, int.raw, "array length")])
  | .newMultiArray =>
    (0, (List.range (nd.inputs.length - 1)).map fun s =>
      (s + 1, int.raw, "array dimension"))
  | .checkCast => (2, [(1, ref.raw, "CheckCast object")])
  | .instanceOf => (1, [(0, ref.raw, "InstanceOf object")])
  | .compressedRefEncode => (1, [(0, ref.raw, "CompressedRefEncode reference")])
  | .compressedRefDecode => (1, [(0, int.raw, "CompressedRefDecode oop")])
  | .untagValue => (1, [(0, tagged.raw, "UntagValue tagged value")])
  | .repTransitionGuard => (2, [(1, tagged.raw, "RepTransitionGuard value")])
  | _ => (0, [])

def checkOperandRows (n : NodeId) (rows : List (Nat × RawType × String)) :
    Option (List VerifyDiag) := do
  let checked ← rows.mapM fun (s, want, what) => im.checkOperandType n (im.input n s) want what
  return checked.flatten

def checkOperandTypes (n : NodeId) : Option (List VerifyDiag) :=
  let nd := im.node n
  match binaryOperandTypes nd.kind, unaryOperandType nd.kind with
  | some (a, b), _ =>
    if 2 ≤ nd.inputs.length then
      im.checkOperandRows n [(0, a.raw, "binary operand a"), (1, b.raw, "binary operand b")]
    else some []
  | none, some a =>
    if 1 ≤ nd.inputs.length then im.checkOperandRows n [(0, a.raw, "unary operand")]
    else some []
  | none, none =>
    if nd.kind = .materialize then
      if 3 ≤ nd.inputs.length then
        let v := im.input n 2
        if im.validId v ∧ (im.node v).kind ≠ .virtualObjectState then
          some [⟨n, "Materialize input 2 must be a VirtualObjectState"⟩]
        else some []
      else some []
    else
      let (least, rows) := operandRows nd
      if least ≤ nd.inputs.length then im.checkOperandRows n rows else some []

def checkKindPayloads (n : NodeId) : List VerifyDiag :=
  let nd := im.node n
  match nd.kind with
  | .parameter =>
    if RawType.isScalarType (asByte nd.payload2) then []
    else [⟨n, "Parameter type must be a scalar IRType"⟩]
  | .loadField | .loadStatic | .unboxPrimitive =>
    if RawType.isScalarType (asByte nd.payload2) then []
    else [⟨n, "load result type must be a scalar IRType"⟩]
  | .loadElem | .storeElem | .newArray =>
    if RawType.isScalarType (asByte nd.payload) then []
    else [⟨n, "element type must be a scalar IRType"⟩]
  | .memBar => if 5 < nd.payload.toNat then [⟨n, "MemBar kind out of range"⟩] else []
  | .guardNode => if 10 < nd.payload.toNat then [⟨n, "Guard kind out of range"⟩] else []
  | .virtualObjectState =>
    if 1 < nd.payload2.toNat then
      [⟨n, "VirtualObjectState kind must be 0 (instance) or 1 (array)"⟩] else []
  | _ => []

def checkNode (n : NodeId) : Option (List VerifyDiag) := do
  let nd := im.node n
  let types ← im.checkOperandTypes n
  return (if nd.reserved = 0 then []
      else [⟨n, "reserved field must be 0 (corrupt node record)"⟩]) ++
    im.checkInputs n ++ im.checkSignature n ++ im.checkRoles n ++
    (if isTerminal nd.kind && used n then [⟨n, "terminal node still has users"⟩] else []) ++
    im.checkProjectionParent n ++ im.checkMergeShapes n ++ types ++ im.checkKindPayloads n

def memSlot (k : NodeKind) : Option Nat := (info k).roles.findIdx? (· == .mem)

/-- The memory predecessors of a chain node: the values of a phi, the memory input of
any other producer. -/
def memChildren (n : NodeId) : List NodeId :=
  let nd := im.node n
  if nd.kind = .phi then nd.inputs.tail
  else match memSlot nd.kind with
    | some s => (nd.inputs[s]?).toList
    | none => []

/-- One frame of the walk: a node and the next of its predecessors to visit. -/
abbrev WalkFrame := NodeId × Nat

/-- The walk back from a memory input, depth first with the branch (`stack`, its nodes
are on the path) and the nodes already proven (`done`); `fuel` is the step belt. -/
def memWalk (n : NodeId) : Nat → List WalkFrame → List NodeId → List VerifyDiag
  | _, [], _ => []
  | 0, _ :: _, _ => [⟨n, "memory chain walk exceeded graph size (cycle?)"⟩]
  | fuel + 1, (top, next) :: stack, done =>
    let c := im.node top
    let cName := c.kind.name
    if !producesMemoryState c.kind then
      [⟨n, s!"memory chain passes through n{top} ({cName}) which does not produce memory state"⟩]
    else
      match (im.memChildren top)[next]? with
      | none => memWalk n fuel stack (top :: done)
      | some child =>
        let rest := (top, next + 1) :: stack
        if c.kind = .phi ∧ child = top then memWalk n fuel rest done
        else if !im.validId child then memWalk n fuel rest done
        else if child = Graph.startNode then memWalk n fuel rest done
        else if child ∈ rest.map Prod.fst then
          let cn := im.node child
          let region := im.input child 0
          if cn.kind = .phi ∧ 1 ≤ cn.inputs.length ∧ im.validId region = true ∧
              (im.node region).kind = .loopBegin then
            memWalk n fuel rest done
          else [⟨n, s!"memory chain cycle detected at n{child}"⟩]
        else if child ∈ done then memWalk n fuel rest done
        else memWalk n fuel ((child, 0) :: rest) done

def checkMemoryChain (n : NodeId) : List VerifyDiag :=
  let nd := im.node n
  if im.isDead n then []
  else match memSlot nd.kind with
    | none => []
    | some s =>
      match nd.inputs[s]? with
      | none => []
      | some v => if im.validId v then im.memWalk n (2 * im.nodeCount + 3) [(v, 0)] [] else []

def checkSpeculation (n : NodeId) : List VerifyDiag :=
  let nd := im.node n
  (if nd.flags.has .speculative then
    if nd.specMeta = 0 then [⟨n, "speculative node has no SpecMeta (Rule 122)"⟩]
    else
      let sm := im.specMetas.getD (nd.specMeta.toNat - 1) {}
      (if 10000 < sm.confidence.toNat then
        [⟨n, "SpecMeta confidence exceeds 10000 basis points"⟩] else []) ++
      (if (sm.source = .pgo ∨ sm.source = .assumption) ∧
          (sm.dependency = kInvalidDependency ∨ im.deps.length ≤ sm.dependency.toNat) then
        [⟨n, "PGO/assumption speculation without a valid dependency (Rule 42)"⟩] else []) ++
      (if sm.source ≠ .static ∧ sm.guard = 0xFFFFFFFF then
        [⟨n, "non-static speculation has no guard plan (Rule 122)"⟩] else [])
    else []) ++
  (if nd.kind = .repTransitionGuard ∧ nd.flags.has .speculative = false then
    [⟨n, "RepTransitionGuard must be speculative (Part XVIII)"⟩] else [])

/-- Some live frame-state node stands for the descriptor. -/
def descHasLiveFs (d : Nat) : Bool :=
  (List.range im.nodeCount).any fun n =>
    (im.node n).kind == .frameState && !im.isDead n && (im.node n).payload.toNat == d

/-- The walk along the callers of a descriptor. -/
def callerWalk (n : NodeId) : Nat → BitVec 32 → List VerifyDiag
  | fuel, cur =>
    if cur = kInvalidFrameState then []
    else match fuel with
      | 0 => [⟨n, "FrameState caller chain cycle"⟩]
      | fuel + 1 =>
        let shown := cur.toNat
        match im.frameStates[cur.toNat]? with
        | none => [⟨n, "FrameState caller id out of range"⟩]
        | some d =>
          if !im.descHasLiveFs cur.toNat then
            [⟨n, s!"FrameState caller chain target {shown} has no live snapshot node"⟩]
          else callerWalk n fuel d.caller

def checkFrameState (n : NodeId) : List VerifyDiag :=
  let nd := im.node n
  if nd.kind ≠ .frameState ∨ im.isDead n then []
  else match im.frameStates[nd.payload.toNat]? with
    | none => [⟨n, "FrameState descriptor id out of range"⟩]
    | some d =>
      im.callerWalk n (im.frameStates.length + 2) nd.payload ++
      d.vobjs.flatMap fun v =>
        if !im.validId v then [⟨n, "FrameState vobj list contains a dangling id"⟩]
        else if (im.node v).kind ≠ .virtualObjectState then
          [⟨n, "FrameState vobj entry is not a VirtualObjectState"⟩]
        else if im.isDead v then [⟨n, "FrameState vobj entry is dead"⟩]
        else []

def virtualFields (n : NodeId) : List NodeId :=
  (im.node n).inputs.filter fun f =>
    im.validId f && (im.node f).kind == .virtualObjectState

/-- Colours of the cycle search: the nodes on the current branch and the finished ones. -/
structure Colours where
  gray : List NodeId := []
  black : List NodeId := []

/-- Depth-first search for a cycle among virtual objects; every nested call colours a
white node, so the nesting is bounded by the number of nodes. -/
def hasVobjCycle : Nat → NodeId → Colours → Colours × List VerifyDiag
  | 0, _, colours => (colours, [])
  | fuel + 1, n, colours =>
    let entered : Colours := { colours with gray := n :: colours.gray }
    let visit (acc : Colours × List VerifyDiag) (f : NodeId) : Colours × List VerifyDiag :=
      if f ∈ acc.1.gray then
        (acc.1, acc.2 ++ [⟨n, s!"materialization graph cycle: vobj n{f} participates in a cycle"⟩])
      else if f ∈ acc.1.black then acc
      else
        let inner := hasVobjCycle fuel f acc.1
        (inner.1, acc.2 ++ inner.2)
    let left := (im.virtualFields n).foldl visit (entered, [])
    (⟨left.1.gray.erase n, n :: left.1.black⟩, left.2)

def checkVobjCycles : List VerifyDiag :=
  ((List.range im.nodeCount).foldl (fun (acc : Colours × List VerifyDiag) n =>
      if (im.node n).kind = .virtualObjectState ∧ n ∉ acc.1.gray ∧ n ∉ acc.1.black then
        let inner := im.hasVobjCycle (im.nodeCount + 1) n acc.1
        (inner.1, acc.2 ++ inner.2)
      else acc) ({}, [])).2

/-- A materialized object has no virtual field left, and the list of a frame state is
closed under virtual fields. -/
def checkMaterialization (n : NodeId) : List VerifyDiag :=
  let nd := im.node n
  if im.isDead n then []
  else
    (if nd.kind = .materialize ∧ 3 ≤ nd.inputs.length then
      let v := im.input n 2
      if im.validId v ∧ (im.node v).kind = .virtualObjectState then
        (im.virtualFields v).map fun f =>
          ⟨n, s!"Materialize stores a still-virtual field: vobj n{v} field n{f} must be materialized (or deopt-listed) first"⟩
      else []
      else []) ++
    (if nd.kind = .frameState then
      match im.frameStates[nd.payload.toNat]? with
      | none => []
      | some d =>
        d.vobjs.flatMap fun v =>
          if !im.validId v || (im.node v).kind != .virtualObjectState then []
          else (im.virtualFields v).filterMap fun f =>
            if d.vobjs.contains f then none
            else some ⟨n, s!"materialization closure violated: vobj n{v} references vobj n{f} which is not materialized at this deopt point"⟩
      else [])

def checkVector (n : NodeId) : Option (List VerifyDiag) :=
  let nd := im.node n
  let num := nd.inputs.length
  let lane2 := unpackVecLane nd.payload2
  let lanes2 := unpackVecLanes nd.payload2
  let vt2 := RawType.vectorOfLane lane2
  let op := asByte nd.payload
  match nd.kind with
  | .vectorPack =>
    let lane := asByte nd.payload
    if RawType.laneTypeOf (RawType.vectorOfLane lane) ≠ lane ∨
        RawType.vectorOfLane lane = bottom.raw then
      some [⟨n, "VectorPack lane type must be a lane-legal IRType"⟩]
    else if !lanesOk num then
      some [⟨n, "VectorPack lane count must be a power of two in [2, 64]"⟩]
    else
      im.checkOperandRows n ((List.range num).map fun s =>
        (s, RawType.laneCarrier lane, "VectorPack lane value"))
  | .vectorBroadcast =>
    let lane := asByte nd.payload
    if RawType.vectorOfLane lane = bottom.raw then
      some [⟨n, "VectorBroadcast lane type must be lane-legal"⟩]
    else if !lanesOk lanes2 then
      some [⟨n, "VectorBroadcast lane count must be a power of two in [2, 64]"⟩]
    else
      im.checkOperandRows n [(0, RawType.laneCarrier lane, "VectorBroadcast scalar")]
  | .vectorOp | .vectorMaskOp =>
    if vt2 = bottom.raw then
      some [⟨n, "vector op lane type must be lane-legal"⟩]
    else if !lanesOk lanes2 then
      some [⟨n, "vector op lane count must be a power of two in [2, 64]"⟩]
    else if 11 ≤ op.toNat ∨ isLegalElementWiseOp op lane2 = false then
      some [⟨n, "vector op not legal for this lane type"⟩]
    else if nd.kind = .vectorOp then
      if 2 ≤ num then
        im.checkOperandRows n [(0, vt2, "VectorOp operand a"), (1, vt2, "VectorOp operand b")]
      else some []
    else do
      let operands ←
        if 3 ≤ num then
          im.checkOperandRows n [(0, vectorI8.raw, "VectorMaskOp mask"),
            (1, vt2, "VectorMaskOp operand a"), (2, vt2, "VectorMaskOp operand b")]
        else some []
      let m := im.input n 0
      let mask :=
        if 1 ≤ num ∧ im.validId m = true ∧ (im.node m).kind = .vectorBroadcast ∧
            unpackVecLanes (im.node m).payload2 ≠ lanes2 then
          [⟨n, "mask lane count differs from operand lane count"⟩]
        else []
      return operands ++ mask
  | .vectorLoad | .vectorStore =>
    if vt2 = bottom.raw then
      some [⟨n, "vector memory lane type must be lane-legal"⟩]
    else if !lanesOk lanes2 then
      some [⟨n, "vector memory lane count must be a power of two in [2, 64]"⟩]
    else if nd.kind = .vectorLoad then
      if 4 ≤ num then
        im.checkOperandRows n [(2, ref.raw, "VectorLoad array"), (3, int.raw, "VectorLoad index")]
      else some []
    else if 5 ≤ num then
      im.checkOperandRows n [(2, ref.raw, "VectorStore array"),
        (3, int.raw, "VectorStore index"), (4, vt2, "VectorStore vector")]
    else some []
  | .vectorReduce =>
    if vt2 = bottom.raw then
      some [⟨n, "VectorReduce lane type must be lane-legal"⟩]
    else do
      let illegal :=
        if 11 ≤ op.toNat ∨ isLegalReductionOp op lane2 = false then
          [⟨n, "VectorReduce op not legal for this lane type"⟩]
        else []
      let operands ←
        if 1 ≤ num then im.checkOperandRows n [(0, vt2, "VectorReduce operand")] else some []
      return illegal ++ operands
  | .vectorExtract =>
    if 2 ≤ num then do
      let v := im.input n 0
      let vector ←
        if im.validId v then do
          let vt ← im.typeOf v
          pure (if RawType.isVectorType vt then []
            else [⟨n, "VectorExtract operand must be a vector"⟩])
        else pure []
      let index ← im.checkOperandRows n [(1, int.raw, "VectorExtract index")]
      return vector ++ index
    else some []
  | .vectorInsert =>
    if 3 ≤ num then do
      let v := im.input n 0
      let vector ←
        if im.validId v then do
          let vt ← im.typeOf v
          if RawType.isVectorType vt then
            im.checkOperandRows n [(1, RawType.laneCarrier (RawType.laneTypeOf vt),
              "VectorInsert value")]
          else pure [⟨n, "VectorInsert operand must be a vector"⟩]
        else pure []
      let index ← im.checkOperandRows n [(2, int.raw, "VectorInsert index")]
      return vector ++ index
    else some []
  | _ => some []

def checkTagged (n : NodeId) : List VerifyDiag :=
  let nd := im.node n
  let src := (asByte nd.payload).toNat
  let dst := (asByte nd.payload2).toNat
  match nd.kind with
  | .tagValue | .untagValue =>
    if 8 < src ∨ 8 < dst then [⟨n, "tagged node has an out-of-range ValueRep payload"⟩]
    else if src = 8 ∨ dst = 8 then
      [⟨n, "unguarded Polymorphic rep transition: use RepTransitionGuard (Part XVIII)"⟩]
    else []
  | .repTransitionGuard =>
    if 8 < src ∨ 8 < dst then [⟨n, "tagged node has an out-of-range ValueRep payload"⟩]
    else if src = dst then
      [⟨n, "RepTransitionGuard must actually change the representation"⟩]
    else []
  | _ => []

/-- All diagnostics, in the order of their emission. -/
def verifyDiags : Option (List VerifyDiag) := do
  let ids := List.range im.nodeCount
  let nodes ← ids.mapM (im.checkNode used)
  let vectors ← ids.mapM fun n => do return (← im.checkVector n) ++ im.checkTagged n
  return nodes.flatten ++ ids.flatMap im.checkMemoryChain ++ ids.flatMap im.checkSpeculation ++
    ids.flatMap im.checkFrameState ++ im.checkVobjCycles ++
    ids.flatMap im.checkMaterialization ++ vectors.flatten

def verify : Option VerifyResult := do
  let diags ← im.verifyDiags used
  return ⟨diags.isEmpty, diags.take kMaxDiags⟩

end Image

/-- The verifier on a graph. -/
def Store.verify (g : Store) : Option VerifyResult :=
  g.image.verify fun n => !(g.usesOf n).isEmpty

/-- The verifier comes back and reports nothing. -/
def Store.Accepted (g : Store) : Prop := g.verify = some ⟨true, []⟩

instance (g : Store) : Decidable g.Accepted :=
  inferInstanceAs (Decidable (g.verify = some ⟨true, []⟩))

end B2Compiler.Ir
