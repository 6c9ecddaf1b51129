import Mathlib.Data.List.Basic

/-!
# Node kinds and the node-info registry of the sea-of-nodes IR

Every kind has one registry row: the roles of its fixed input prefix, the role of
the inputs that may be appended, and whether a frame state closes the list.  The
passes read control flow off these roles.
-/

namespace B2Compiler.Ir

/-! ## Types -/

/-- Value types of the IR. -/
inductive IRType where
  | bottom | int | long | float | double | null | ref | tagged
  | int8 | int16
  | vectorI8 | vectorI16 | vectorI32 | vectorI64 | vectorF32 | vectorF64
  deriving DecidableEq, Repr, Inhabited

/-- Least upper bound: flat except `null` below `ref`; an incompatible merge is
`bottom`. -/
def IRType.join (a b : IRType) : IRType :=
  if a = b then a
  else if (a = .null ∧ b = .ref) ∨ (a = .ref ∧ b = .null) then .ref
  else .bottom

/-- Can a value of type `a` feed an operand slot that expects `b`? -/
def IRType.isAssignable (a b : IRType) : Bool :=
  a = b || (a = .null && b = .ref)

/-- A payload slot read back as a type; a number that names no type is `bottom`. -/
def IRType.ofTag (tag : Nat) : IRType :=
  [IRType.bottom, .int, .long, .float, .double, .null, .ref, .tagged, .int8, .int16,
    .vectorI8, .vectorI16, .vectorI32, .vectorI64, .vectorF32, .vectorF64].getD
    (tag % 256) .bottom

def IRType.vectorOfLane : IRType → IRType
  | .int8 => .vectorI8
  | .int16 => .vectorI16
  | .int => .vectorI32
  | .long => .vectorI64
  | .float => .vectorF32
  | .double => .vectorF64
  | _ => .bottom

/-- The type an untagged value has, by the number of its representation. -/
def IRType.ofRep (rep : Nat) : IRType :=
  match rep % 256 with
  | 0 | 6 => .int
  | 1 => .long
  | 2 => .float
  | 3 => .double
  | _ => .ref

/-- The node kinds, in the order of the source's enumeration. -/
inductive NodeKind where
  -- control
  | start | endNode | region | ifNode | ifTrue | ifFalse | switchNode | switchCase
  | switchDefault | loopBegin | loopEnd | loopExit | returnNode | unwind | deopt
  -- memory
  | loadField | storeField | loadStatic | storeStatic | loadElem | storeElem
  | arrayLength | memBar | monitorEnter | monitorExit | new | newArray | newRefArray
  | newMultiArray | classInit
  -- calls
  | callStatic | callVirtual | callInterface | callDynamic | callExcept | loadException
  -- object and type operations
  | checkCast | instanceOf
  -- guards
  | guardNode
  -- constants and parameters
  | constantI | constantL | constantF | constantD | constantNull | constantSym
  | parameter
  -- arithmetic
  | addI | subI | mulI | divI | remI | negI
  | shlI | shrI | ushrI | andI | orI | xorI
  | addL | subL | mulL | divL | remL | negL
  | shlL | shrL | ushrL | andL | orL | xorL
  | addF | subF | mulF | divF | remF | negF
  | addD | subD | mulD | divD | remD | negD
  -- comparisons
  | cmpI | cmpL | cmpFl | cmpFg | cmpDl | cmpDg
  -- conversions
  | i2l | i2f | i2d | l2i | l2f | l2d | f2i | f2l | f2d | d2i | d2l | d2f
  | i2b | i2c | i2s
  | signExtend | zeroExtend | truncate | bitCast
  | compressedRefEncode | compressedRefDecode | boxPrimitive | unboxPrimitive
  -- merges
  | phi
  -- vectors
  | vectorBroadcast | vectorPack | vectorExtract | vectorInsert | vectorOp
  | vectorMaskOp | vectorLoad | vectorStore | vectorReduce
  -- virtual objects
  | virtualObjectState | materialize
  -- tagged values
  | tagValue | untagValue | repTransitionGuard
  -- state
  | frameState
  -- tests of the graph builder
  | undef | not | isNull | refEq | eqI | neI | ltI | leI | gtI | geI
  deriving DecidableEq, Repr, Inhabited

/-- What an input slot means for its node. -/
inductive InputRole where
  | none | ctrl | mem | data | frameState | parent
  deriving DecidableEq, Repr, Inhabited

/-- The part of a registry row the passes read: the signature. -/
structure NodeInfo where
  roles : List InputRole
  variadicRole : Option InputRole := Option.none
  hasFrameState : Bool := false

/-- The registry, by kind. -/
def info : NodeKind → NodeInfo
  | .start => ⟨[], none, false⟩
  | .endNode | .region | .loopBegin => ⟨[], some .ctrl, false⟩
  | .ifNode | .switchNode => ⟨[.ctrl, .data], none, false⟩
  | .ifTrue | .ifFalse | .switchCase | .switchDefault => ⟨[.parent], none, false⟩
  | .loopEnd => ⟨[.ctrl], none, false⟩
  | .loopExit | .deopt => ⟨[.ctrl], none, true⟩
  | .returnNode => ⟨[.ctrl], some .data, false⟩
  | .unwind => ⟨[.ctrl, .data], none, false⟩
  | .loadField => ⟨[.ctrl, .mem, .data], none, false⟩
  | .storeField => ⟨[.ctrl, .mem, .data, .data], none, false⟩
  | .loadStatic => ⟨[.ctrl, .mem], none, false⟩
  | .storeStatic => ⟨[.ctrl, .mem, .data], none, false⟩
  | .loadElem => ⟨[.ctrl, .mem, .data, .data], none, false⟩
  | .storeElem => ⟨[.ctrl, .mem, .data, .data, .data], none, false⟩
  | .arrayLength => ⟨[.data], none, false⟩
  | .memBar => ⟨[.ctrl, .mem], none, false⟩
  | .monitorEnter | .monitorExit => ⟨[.ctrl, .mem, .data], none, false⟩
  | .new => ⟨[.ctrl], none, false⟩
  | .newArray | .newRefArray => ⟨[.ctrl, .data], none, false⟩
  | .newMultiArray => ⟨[.ctrl], some .data, false⟩
  | .classInit => ⟨[.ctrl, .mem], none, false⟩
  | .callStatic | .callVirtual | .callInterface | .callDynamic => ⟨[.ctrl, .mem], some .data, true⟩
  | .callExcept => ⟨[.parent], none, false⟩
  | .loadException => ⟨[.ctrl], none, false⟩
  | .checkCast => ⟨[.ctrl, .data], none, false⟩
  | .instanceOf => ⟨[.data], none, false⟩
  | .guardNode => ⟨[.ctrl, .data], none, true⟩
  | .constantI | .constantL | .constantF | .constantD | .constantNull | .constantSym
  | .parameter => ⟨[], none, false⟩
  | .negI | .negL | .negF | .negD => ⟨[.data], none, false⟩
  | .addI | .subI | .mulI | .divI | .remI | .shlI | .shrI | .ushrI | .andI | .orI | .xorI
  | .addL | .subL | .mulL | .divL | .remL | .shlL | .shrL | .ushrL | .andL | .orL | .xorL
  | .addF | .subF | .mulF | .divF | .remF | .addD | .subD | .mulD | .divD | .remD
  | .cmpI | .cmpL | .cmpFl | .cmpFg | .cmpDl | .cmpDg => ⟨[.data, .data], none, false⟩
  | .i2l | .i2f | .i2d | .l2i | .l2f | .l2d | .f2i | .f2l | .f2d | .d2i | .d2l | .d2f
  | .i2b | .i2c | .i2s | .signExtend | .zeroExtend | .truncate | .bitCast
  | .compressedRefEncode | .compressedRefDecode | .boxPrimitive | .unboxPrimitive =>
    ⟨[.data], none, false⟩
  | .phi => ⟨[.ctrl], some .data, false⟩
  | .vectorBroadcast | .vectorReduce => ⟨[.data], none, false⟩
  | .vectorPack | .virtualObjectState | .frameState => ⟨[], some .data, false⟩
  | .vectorExtract | .vectorOp => ⟨[.data, .data], none, false⟩
  | .vectorInsert | .vectorMaskOp => ⟨[.data, .data, .data], none, false⟩
  | .vectorLoad => ⟨[.ctrl, .mem, .data, .data], none, false⟩
  | .vectorStore => ⟨[.ctrl, .mem, .data, .data, .data], none, false⟩
  | .materialize => ⟨[.ctrl, .mem, .data], none, false⟩
  | .tagValue | .untagValue => ⟨[.data], none, false⟩
  | .repTransitionGuard => ⟨[.ctrl, .data], none, true⟩
  | .undef => ⟨[], none, false⟩
  | .not | .isNull => ⟨[.data], none, false⟩
  | .refEq | .eqI | .neI | .ltI | .leI | .gtI | .geI => ⟨[.data, .data], none, false⟩

/-- Node ids are creation order. -/
abbrev NodeId := Nat

/-- One node record: the flags and payload slots the modelled passes read. -/
structure Node where
  kind : NodeKind
  inputs : List NodeId := []
  dead : Bool := false
  neverNull : Bool := false
  payload : Nat := 0
  payload2 : Nat := 0
  constValue : BitVec 64 := 0
  deriving DecidableEq, Repr, Inhabited

end B2Compiler.Ir
