import B2Compiler.Ir.StoreSlices

/-!
# What the accessors show of a graph

The verifier and the serializer read a graph through its accessors only: a node with
its ordered inputs, a descriptor with its list of virtual objects, the side tables and
the replacement log.  An `Image` is exactly that; where the slices lie in the pool and
in which order uses were made is no part of it.
-/

namespace B2Compiler.Ir

/-! ## Images -/

/-- A node with its ordered inputs. -/
structure NodeImage where
  kind : NodeKind := .start
  flags : NodeFlags := {}
  payload : BitVec 32 := 0
  payload2 : BitVec 32 := 0
  constValue : BitVec 64 := 0
  specMeta : BitVec 32 := 0
  epoch : BitVec 32 := 0
  reserved : BitVec 16 := 0
  inputs : List NodeId := []
  deriving DecidableEq, Repr, Inhabited

/-- A frame-state descriptor with its virtual objects. -/
structure FrameImage where
  method : BitVec 32 := 0
  pc : BitVec 32 := 0
  caller : BitVec 32 := kInvalidFrameState
  vobjs : List NodeId := []
  deriving DecidableEq, Repr, Inhabited

/-- A graph as its accessors show it. -/
structure Image where
  nodes : List NodeImage
  frameStates : List FrameImage
  specMetas : List SpecMeta
  deps : List Dependency
  replacements : List Replacement
  deriving DecidableEq, Repr, Inhabited

def NodeRec.image (nd : NodeRec) (inputs : List NodeId) : NodeImage where
  kind := nd.kind
  flags := nd.flags
  payload := nd.payload
  payload2 := nd.payload2
  constValue := nd.constValue
  specMeta := nd.specMeta
  epoch := nd.epoch
  reserved := nd.reserved
  inputs := inputs

namespace Store

variable (g : Store)

def nodeImage (n : NodeId) : NodeImage := (g.node n).image (g.inputs n)

def frameImage (id : Nat) : FrameImage :=
  let d := g.fsDesc.getD id {}
  ⟨d.method, d.pc, d.caller, g.frameStateVobjs id⟩

def image : Image where
  nodes := (List.range g.nodes.length).map g.nodeImage
  frameStates := (List.range g.fsDesc.length).map g.frameImage
  specMetas := g.specMetas
  deps := g.deps
  replacements := g.replacements

end Store

/-! ## Reading an image -/

namespace Image

variable (im : Image)

def nodeCount : Nat := im.nodes.length

def node (n : NodeId) : NodeImage := im.nodes.getD n {}

def isDead (n : NodeId) : Bool := (im.node n).flags.has .dead

def numInputs (n : NodeId) : Nat := (im.node n).inputs.length

def input (n : NodeId) (slot : Nat) : NodeId := (im.node n).inputs.getD slot kInvalidNodeId

end Image

theorem length_image_nodes (g : Store) : g.image.nodes.length = g.nodes.length := by
  simp [Store.image]

theorem getElem?_image_nodes (g : Store) (n : Nat) :
    g.image.nodes[n]? = if n < g.nodes.length then some (g.nodeImage n) else none := by
  simp only [Store.image, List.getElem?_map]
  by_cases hn : n < g.nodes.length
  · simp [hn]
  · simp [hn]

theorem node_image (g : Store) {n : NodeId} (hn : n < g.nodes.length) :
    g.image.node n = g.nodeImage n := by
  rw [Image.node, List.getD_eq_getElem?_getD, getElem?_image_nodes, if_pos hn]
  rfl

/-- Canonical names of the node kinds, in the order of the enumeration. -/
def kindNames : List String :=
  ["Start", "End", "Region", "If", "IfTrue", "IfFalse", "Switch", "SwitchCase",
    "SwitchDefault", "LoopBegin", "LoopEnd", "LoopExit", "Return", "Unwind", "Deopt",
    "LoadField", "StoreField", "LoadStatic", "StoreStatic", "LoadElem", "StoreElem",
    "ArrayLength", "MemBar", "MonitorEnter", "MonitorExit", "New", "NewArray",
    "NewRefArray", "NewMultiArray", "ClassInit", "CallStatic", "CallVirtual",
    "CallInterface", "CallDynamic", "CallExcept", "LoadException", "CheckCast",
    "InstanceOf", "Guard", "ConstantI", "ConstantL", "ConstantF", "ConstantD",
    "ConstantNull", "ConstantSym", "Parameter", "AddI", "SubI", "MulI", "DivI", "RemI",
    "NegI", "ShlI", "ShrI", "UShrI", "AndI", "OrI", "XorI", "AddL", "SubL", "MulL", "DivL",
    "RemL", "NegL", "ShlL", "ShrL", "UShrL", "AndL", "OrL", "XorL", "AddF", "SubF", "MulF",
    "DivF", "RemF", "NegF", "AddD", "SubD", "MulD", "DivD", "RemD", "NegD", "CmpI", "CmpL",
    "CmpFl", "CmpFg", "CmpDl", "CmpDg", "I2L", "I2F", "I2D", "L2I", "L2F", "L2D", "F2I",
    "F2L", "F2D", "D2I", "D2L", "D2F", "I2B", "I2C", "I2S", "SignExtend", "ZeroExtend",
    "Truncate", "BitCast", "CompressedRefEncode", "CompressedRefDecode", "BoxPrimitive",
    "UnboxPrimitive", "Phi", "VectorBroadcast", "VectorPack", "VectorExtract",
    "VectorInsert", "VectorOp", "VectorMaskOp", "VectorLoad", "VectorStore",
    "VectorReduce", "VirtualObjectState", "Materialize", "TagValue", "UntagValue",
    "RepTransitionGuard", "FrameState", "Undef", "Not", "IsNull", "RefEq", "EqI", "NeI",
    "LtI", "LeI", "GtI", "GeI"]

def NodeKind.name (k : NodeKind) : String := kindNames.getD k.ctorIdx "bad<kind>"

/-! ## Value types as stored

A payload holds a type as a number, and a number that names no type is carried along as
it is; it is equal to itself and to nothing else. -/

/-- The number of a value type. -/
abbrev RawType := BitVec 8

def IRType.raw (t : IRType) : RawType := t.toTag.setWidth 8

namespace RawType

def name (t : RawType) : String :=
  ["bottom", "int", "long", "float", "double", "null", "ref", "tagged", "i8", "i16",
    "vec.i8", "vec.i16", "vec.i32", "vec.i64", "vec.f32", "vec.f64"].getD t.toNat "?"

def isScalarType (t : RawType) : Bool :=
  t == IRType.int.raw || t == IRType.long.raw || t == IRType.float.raw ||
    t == IRType.double.raw || t == IRType.null.raw || t == IRType.ref.raw ||
    t == IRType.tagged.raw

def isVectorType (t : RawType) : Bool :=
  decide (IRType.vectorI8.raw ≤ t) && decide (t ≤ IRType.vectorF64.raw)

/-- Scalar type of the lanes of a vector type. -/
def laneTypeOf (t : RawType) : RawType :=
  if t = IRType.vectorI8.raw then IRType.int8.raw
  else if t = IRType.vectorI16.raw then IRType.int16.raw
  else if t = IRType.vectorI32.raw then IRType.int.raw
  else if t = IRType.vectorI64.raw then IRType.long.raw
  else if t = IRType.vectorF32.raw then IRType.float.raw
  else if t = IRType.vectorF64.raw then IRType.double.raw
  else IRType.bottom.raw

def vectorOfLane (lane : RawType) : RawType :=
  if lane = IRType.int8.raw then IRType.vectorI8.raw
  else if lane = IRType.int16.raw then IRType.vectorI16.raw
  else if lane = IRType.int.raw then IRType.vectorI32.raw
  else if lane = IRType.long.raw then IRType.vectorI64.raw
  else if lane = IRType.float.raw then IRType.vectorF32.raw
  else if lane = IRType.double.raw then IRType.vectorF64.raw
  else IRType.bottom.raw

/-- The scalar that carries a lane's value: narrow lanes ride in ints. -/
def laneCarrier (lane : RawType) : RawType :=
  if lane = IRType.int8.raw ∨ lane = IRType.int16.raw ∨ lane = IRType.int.raw then IRType.int.raw
  else if lane = IRType.long.raw then IRType.long.raw
  else if lane = IRType.float.raw then IRType.float.raw
  else if lane = IRType.double.raw then IRType.double.raw
  else IRType.bottom.raw

def join (a b : RawType) : RawType :=
  if a = b then a
  else if (a = IRType.null.raw ∧ b = IRType.ref.raw) ∨
      (a = IRType.ref.raw ∧ b = IRType.null.raw) then IRType.ref.raw
  else IRType.bottom.raw

def isAssignable (src dst : RawType) : Bool :=
  src == dst || (src == IRType.null.raw && dst == IRType.ref.raw)

/-- The type an untagged value has, by its representation. -/
def ofRep (rep : BitVec 8) : RawType :=
  match rep.toNat with
  | 0 | 6 => IRType.int.raw
  | 1 => IRType.long.raw
  | 2 => IRType.float.raw
  | 3 => IRType.double.raw
  | _ => IRType.ref.raw

end RawType

/-- A payload read as a type, a representation or a vector operation. -/
def asByte (payload : BitVec 32) : BitVec 8 := payload.setWidth 8

/-- The lane type and the lane count packed into a payload. -/
def unpackVecLane (p : BitVec 32) : RawType := asByte p

def unpackVecLanes (p : BitVec 32) : Nat := p.toNat / 256

/-- The type of the value a node produces.  `bitCast` and `phi` ask their inputs, and a
cycle of such questions has no end: `none` is a question that is still open after
`fuel` nested calls. -/
def Image.resultTypeOf (im : Image) : Nat → NodeId → Option RawType
  | 0, _ => none
  | fuel + 1, n =>
    let nd := im.node n
    match nd.kind with
    | .loadField | .loadStatic | .unboxPrimitive | .parameter
    | .callStatic | .callVirtual | .callInterface | .callDynamic => some (asByte nd.payload2)
    | .loadElem => some (asByte nd.payload)
    | .callExcept | .loadException
    | .new | .newArray | .newRefArray | .newMultiArray | .constantSym | .checkCast
    | .materialize | .compressedRefDecode | .boxPrimitive | .virtualObjectState =>
      some IRType.ref.raw
    | .constantL | .addL | .subL | .mulL | .divL | .remL | .negL | .shlL | .shrL
    | .ushrL | .andL | .orL | .xorL | .signExtend | .zeroExtend | .i2l | .f2l | .d2l =>
      some IRType.long.raw
    | .constantF | .addF | .subF | .mulF | .divF | .remF | .negF | .i2f | .l2f | .d2f =>
      some IRType.float.raw
    | .constantD | .addD | .subD | .mulD | .divD | .remD | .negD | .i2d | .l2d | .f2d =>
      some IRType.double.raw
    | .constantNull => some IRType.null.raw
    | .constantI | .arrayLength | .instanceOf | .compressedRefEncode
    | .addI | .subI | .mulI | .divI | .remI | .negI | .shlI | .shrI | .ushrI | .andI
    | .orI | .xorI | .cmpI | .i2b | .i2c | .i2s | .truncate | .not | .isNull | .refEq
    | .eqI | .neI | .ltI | .leI | .gtI | .geI | .cmpL | .cmpFl | .cmpFg | .cmpDl
    | .cmpDg | .l2i | .f2i | .d2i => some IRType.int.raw
    | .bitCast =>
      match nd.inputs with
      | [] => some IRType.bottom.raw
      | v :: _ => im.resultTypeOf fuel v
    | .phi =>
      match nd.inputs.tail with
      | [] => some IRType.bottom.raw
      | v :: vs => do
          let t ← im.resultTypeOf fuel v
          vs.foldlM (fun t w => do return RawType.join t (← im.resultTypeOf fuel w)) t
    | .vectorBroadcast | .vectorPack => some (RawType.vectorOfLane (asByte nd.payload))
    | .vectorOp | .vectorMaskOp | .vectorInsert | .vectorLoad =>
      some (RawType.vectorOfLane (unpackVecLane nd.payload2))
    | .vectorExtract | .vectorReduce => some (unpackVecLane nd.payload2)
    | .tagValue => some IRType.tagged.raw
    | .untagValue => some (RawType.ofRep (asByte nd.payload2))
    | _ => some IRType.bottom.raw

end B2Compiler.Ir
