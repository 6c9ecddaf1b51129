import B2Compiler.Ts.BigInt

/-!
# TurboScript bytecode

The opcode table with the encoding of every opcode, and modules as they are loaded:
functions are 24-bit words, an instruction is one word or two.  The first word carries the
opcode and the fields `a` and `b`, the second the fields `c`, `d` and `e`.
-/

namespace B2Compiler.Ts

/-! ## The opcode table -/

inductive Opcode where
  | nop | mov | loadConst | loadConstS | loadUndefined | loadNull | loadTrue | loadFalse
  | defineGlobalVar | loadGlobal | storeGlobal | getProperty | setProperty | deleteProperty
  | hasProperty | getPrototype | setPrototype | instanceof | inOp | call | callMethod
  | construct | ret | newClosure | newContext | loadContext | storeContext | getContext
  | newObject | add | sub | mul | div | mod | pow | neg | inc | dec | bitAnd | bitOr | bitXor
  | shl | shr | uShr | bitNot | bigIntAdd | bigIntSub | bigIntMul | bigIntDiv | bigIntMod
  | bigIntNeg | lt | le | gt | ge | abstractEq | strictEq | sameValue | sameValueZero
  | logicalNot | toBoolean | typeOf | toNumber | toNumeric | toString | toInt32 | toUint32
  | toBigInt | toPrimitive | stringConcat | stringLength | charCodeAt | stringFromCharCode | jmp
  | jmpWide | jmpTrue | jmpFalse | jmpTrueWide | jmpFalseWide | throw | rethrow | newArray
  | getElement | setElement
  deriving DecidableEq, Repr

/-- How many opcodes there are. -/
def opcodeCount : Nat := 84

inductive OpFormat where
  | w0 | w1R | w1RI8 | w1RR | w1J | w1BR | w2I24 | w2I24D | w2I24S | w2RR | w2RRD | w2RRV
  | w2RRC | w2RCV | w2Call | w2BR
  deriving DecidableEq, Repr

/-- The operand fields of an instruction. -/
inductive Field where
  | a | b | c | d | e
  deriving DecidableEq, Repr

/-- A row of the table; `ic` tells that the opcode owns a feedback slot, `reads` and
`writes` are the fields that name registers. -/
structure OpcodeInfo where
  name : String
  format : OpFormat
  ic : Bool
  reads : List Field
  writes : List Field
  deriving DecidableEq, Repr

def opcodeInfo : Opcode → OpcodeInfo
  | .nop => ⟨"Nop", .w0, false, [], []⟩
  | .mov => ⟨"Mov", .w1RR, false, [.b], [.a]⟩
  | .loadConst => ⟨"LoadConst", .w2I24D, false, [], [.a]⟩
  | .loadConstS => ⟨"LoadConstS", .w1RI8, false, [], [.a]⟩
  | .loadUndefined => ⟨"LoadUndefined", .w1R, false, [], [.a]⟩
  | .loadNull => ⟨"LoadNull", .w1R, false, [], [.a]⟩
  | .loadTrue => ⟨"LoadTrue", .w1R, false, [], [.a]⟩
  | .loadFalse => ⟨"LoadFalse", .w1R, false, [], [.a]⟩
  | .defineGlobalVar => ⟨"DefineGlobalVar", .w2I24, false, [], []⟩
  | .loadGlobal => ⟨"LoadGlobal", .w2I24D, true, [], [.a]⟩
  | .storeGlobal => ⟨"StoreGlobal", .w2I24S, true, [.a], []⟩
  | .getProperty => ⟨"GetProperty", .w2RRD, true, [.b, .c], [.a]⟩
  | .setProperty => ⟨"SetProperty", .w2RRV, true, [.a, .b, .c], []⟩
  | .deleteProperty => ⟨"DeleteProperty", .w2RRD, false, [.b, .c], [.a]⟩
  | .hasProperty => ⟨"HasProperty", .w2RRD, false, [.b, .c], [.a]⟩
  | .getPrototype => ⟨"GetPrototype", .w1RR, false, [.b], [.a]⟩
  | .setPrototype => ⟨"SetPrototype", .w2RRD, false, [.b, .c], [.a]⟩
  | .instanceof => ⟨"Instanceof", .w2RRD, false, [.b, .c], [.a]⟩
  | .inOp => ⟨"In", .w2RRD, false, [.b, .c], [.a]⟩
  | .call => ⟨"Call", .w2Call, true, [.a, .b], [.e]⟩
  | .callMethod => ⟨"CallMethod", .w2Call, true, [.a, .b, .d], [.e]⟩
  | .construct => ⟨"Construct", .w2Call, true, [.a, .b], [.e]⟩
  | .ret => ⟨"Return", .w1R, false, [.a], []⟩
  | .newClosure => ⟨"NewClosure", .w2I24D, false, [], [.a]⟩
  | .newContext => ⟨"NewContext", .w2RRC, false, [.b], [.a]⟩
  | .loadContext => ⟨"LoadContext", .w2RRC, false, [.b], [.a]⟩
  | .storeContext => ⟨"StoreContext", .w2RCV, false, [.a, .c], []⟩
  | .getContext => ⟨"GetContext", .w1R, false, [], [.a]⟩
  | .newObject => ⟨"NewObject", .w1R, false, [], [.a]⟩
  | .add => ⟨"Add", .w1RR, true, [.a, .b], [.a]⟩
  | .sub => ⟨"Sub", .w1RR, true, [.a, .b], [.a]⟩
  | .mul => ⟨"Mul", .w1RR, true, [.a, .b], [.a]⟩
  | .div => ⟨"Div", .w1RR, true, [.a, .b], [.a]⟩
  | .mod => ⟨"Mod", .w1RR, true, [.a, .b], [.a]⟩
  | .pow => ⟨"Pow", .w1RR, true, [.a, .b], [.a]⟩
  | .neg => ⟨"Neg", .w1R, true, [.a], [.a]⟩
  | .inc => ⟨"Inc", .w1R, true, [.a], [.a]⟩
  | .dec => ⟨"Dec", .w1R, true, [.a], [.a]⟩
  | .bitAnd => ⟨"BitAnd", .w1RR, true, [.a, .b], [.a]⟩
  | .bitOr => ⟨"BitOr", .w1RR, true, [.a, .b], [.a]⟩
  | .bitXor => ⟨"BitXor", .w1RR, true, [.a, .b], [.a]⟩
  | .shl => ⟨"Shl", .w1RR, true, [.a, .b], [.a]⟩
  | .shr => ⟨"Shr", .w1RR, true, [.a, .b], [.a]⟩
  | .uShr => ⟨"UShr", .w1RR, true, [.a, .b], [.a]⟩
  | .bitNot => ⟨"BitNot", .w1R, true, [.a], [.a]⟩
  | .bigIntAdd => ⟨"BigIntAdd", .w1RR, false, [.a, .b], [.a]⟩
  | .bigIntSub => ⟨"BigIntSub", .w1RR, false, [.a, .b], [.a]⟩
  | .bigIntMul => ⟨"BigIntMul", .w1RR, false, [.a, .b], [.a]⟩
  | .bigIntDiv => ⟨"BigIntDiv", .w1RR, false, [.a, .b], [.a]⟩
  | .bigIntMod => ⟨"BigIntMod", .w1RR, false, [.a, .b], [.a]⟩
  | .bigIntNeg => ⟨"BigIntNeg", .w1R, false, [.a], [.a]⟩
  | .lt => ⟨"Lt", .w1RR, true, [.a, .b], [.a]⟩
  | .le => ⟨"Le", .w1RR, true, [.a, .b], [.a]⟩
  | .gt => ⟨"Gt", .w1RR, true, [.a, .b], [.a]⟩
  | .ge => ⟨"Ge", .w1RR, true, [.a, .b], [.a]⟩
  | .abstractEq => ⟨"AbstractEq", .w1RR, true, [.a, .b], [.a]⟩
  | .strictEq => ⟨"StrictEq", .w1RR, true, [.a, .b], [.a]⟩
  | .sameValue => ⟨"SameValue", .w1RR, true, [.a, .b], [.a]⟩
  | .sameValueZero => ⟨"SameValueZero", .w1RR, true, [.a, .b], [.a]⟩
  | .logicalNot => ⟨"LogicalNot", .w1R, false, [.a], [.a]⟩
  | .toBoolean => ⟨"ToBoolean", .w1R, false, [.a], [.a]⟩
  | .typeOf => ⟨"TypeOf", .w1R, false, [.a], [.a]⟩
  | .toNumber => ⟨"ToNumber", .w1R, true, [.a], [.a]⟩
  | .toNumeric => ⟨"ToNumeric", .w1R, false, [.a], [.a]⟩
  | .toString => ⟨"ToString", .w1R, false, [.a], [.a]⟩
  | .toInt32 => ⟨"ToInt32", .w1R, false, [.a], [.a]⟩
  | .toUint32 => ⟨"ToUint32", .w1R, false, [.a], [.a]⟩
  | .toBigInt => ⟨"ToBigInt", .w1R, false, [.a], [.a]⟩
  | .toPrimitive => ⟨"ToPrimitive", .w1R, false, [.a], [.a]⟩
  | .stringConcat => ⟨"StringConcat", .w1RR, false, [.a, .b], [.a]⟩
  | .stringLength => ⟨"StringLength", .w1R, false, [.a], [.a]⟩
  | .charCodeAt => ⟨"CharCodeAt", .w2RRD, false, [.b, .c], [.a]⟩
  | .stringFromCharCode => ⟨"StringFromCharCode", .w1R, false, [.a], [.a]⟩
  | .jmp => ⟨"Jmp", .w1J, false, [], []⟩
  | .jmpWide => ⟨"JmpWide", .w2BR, false, [], []⟩
  | .jmpTrue => ⟨"JmpTrue", .w1BR, true, [.a], []⟩
  | .jmpFalse => ⟨"JmpFalse", .w1BR, true, [.a], []⟩
  | .jmpTrueWide => ⟨"JmpTrueWide", .w2BR, true, [.a], []⟩
  | .jmpFalseWide => ⟨"JmpFalseWide", .w2BR, true, [.a], []⟩
  | .throw => ⟨"Throw", .w1R, false, [.a], []⟩
  | .rethrow => ⟨"Rethrow", .w0, false, [], []⟩
  | .newArray => ⟨"NewArray", .w1R, false, [], [.a]⟩
  | .getElement => ⟨"GetElement", .w2RRD, true, [.b, .c], [.a]⟩
  | .setElement => ⟨"SetElement", .w2RRV, true, [.a, .b, .c], []⟩

/-- The opcode of a byte, if it is one. -/
def opcodeOf (byte : Nat) : Option Opcode :=
  if byte < opcodeCount then some (Opcode.ofNat byte) else none

/-- Words of an instruction. -/
def formatWordCount : OpFormat → Nat
  | .w0 | .w1R | .w1RI8 | .w1RR | .w1J | .w1BR => 1
  | _ => 2

def Opcode.format (op : Opcode) : OpFormat := (opcodeInfo op).format

def Opcode.width (op : Opcode) : Nat := formatWordCount op.format

abbrev Word := BitVec 32

inductive Constant where
  | smi (v : BitVec 32)
  | heapNumber (bits : BitVec 64)
  | string (text : List (BitVec 16))
  | bigInt (v : BigInt)
  deriving DecidableEq, Repr

/-- Instructions from `startPc` up to before `endPc` are protected; the thrown value goes
into `catchReg`. -/
structure Handler where
  startPc : Nat
  endPc : Nat
  handlerPc : Nat
  catchReg : Nat
  deriving DecidableEq, Repr

structure Function where
  index : Nat := 0
  paramCount : Nat := 0
  registerCount : Nat := 1
  code : List Word := []
  handlers : List Handler := []
  deriving DecidableEq, Repr

structure Module where
  constants : List Constant := []
  globalNames : List Nat := []
  functions : List Function := []
  entryIndex : Nat := 0
  functionLine : List Nat := []
  deriving DecidableEq, Repr

/-! ## Decoding -/

def byteAt (w : Word) (k : Nat) : Nat := w.toNat / 256 ^ k % 256

def wordOp (w : Word) : Option Opcode := opcodeOf (byteAt w 0)

/-- Words an instruction takes that starts with `w`; a byte that is no opcode counts as
one. -/
def wordWidth (w : Word) : Nat :=
  match wordOp w with
  | some op => op.width
  | none => 1

/-- The fields of an instruction; the fields of a missing second word are zero. -/
structure Operands where
  a : Nat
  b : Nat
  c : Nat
  d : Nat
  e : Nat
  deriving DecidableEq, Repr

def Operands.get (o : Operands) : Field → Nat
  | .a => o.a
  | .b => o.b
  | .c => o.c
  | .d => o.d
  | .e => o.e

namespace Function

variable (fn : Function)

def wordAt (pc : Nat) : Word := fn.code.getD pc 0

def opAt (pc : Nat) : Option Opcode := wordOp (fn.wordAt pc)

/-- Fields of the instruction `op` at `pc`. -/
def operandsAt (op : Opcode) (pc : Nat) : Operands :=
  let w := fn.wordAt pc
  let s := if op.width = 2 then fn.wordAt (pc + 1) else 0
  ⟨byteAt w 1, byteAt w 2, byteAt s 0, byteAt s 1, byteAt s 2⟩

end Function

/-- The immediate in the fields of the second word. -/
def Operands.imm24 (o : Operands) : Nat := o.c + o.d * 2 ^ 8 + o.e * 2 ^ 16

/-- Which words start an instruction when `skip` words still belong to the one before, and
whether the last instruction is whole. -/
def markStarts : Nat → List Word → List Bool × Bool
  | skip, [] => ([], skip = 0)
  | 0, w :: ws =>
    let (marks, aligned) := markStarts (wordWidth w - 1) ws
    (true :: marks, aligned)
  | skip + 1, _ :: ws =>
    let (marks, aligned) := markStarts skip ws
    (false :: marks, aligned)

def computeStarts (fn : Function) : List Bool × Bool := markStarts 0 fn.code

/-- An instruction starts at `pc`. -/
def isStart (fn : Function) (pc : Nat) : Bool := (computeStarts fn).1.getD pc false

end B2Compiler.Ts
