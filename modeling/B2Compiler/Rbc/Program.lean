import B2Compiler.Rbc.Opcode

/-!
# Instructions, constant pools, methods and programs

The in-memory shape of RBC shared by every tier, and the descriptor helpers.
Machine fields keep their width (`BitVec 16` for register operands, `BitVec 32`
for immediates); container indices are natural numbers.  An instruction carries
an opcode of the enumeration, so a code word outside the table, which the
verifier rejects before it looks at anything else, is not representable.
-/

namespace B2Compiler.Rbc

/-- One fixed-width instruction. -/
structure Ins where
  op : Op
  dst : BitVec 16
  a : BitVec 16
  b : BitVec 16
  imm : BitVec 32
  deriving DecidableEq, Repr

namespace Ins

/-- Destination register as an index. -/
def dstReg (i : Ins) : Nat := i.dst.toNat

/-- First source register (or argument base) as an index. -/
def aReg (i : Ins) : Nat := i.a.toNat

/-- Second source register (or argument count) as an index. -/
def bReg (i : Ins) : Nat := i.b.toNat

/-- The immediate as an instruction, slot or pool index. -/
def immIdx (i : Ins) : Nat := i.imm.toNat

end Ins

inductive ConstKind where
  | int32 | int64 | float | double | utf8 | string | klass | nameType | fieldRef
  | methodRef | interfaceMethodRef | methodType | methodHandle | invokeDynamic
  | switchTable
  deriving DecidableEq, Repr, Inhabited

/-- Keyword of a constant kind. -/
def ConstKind.kindName : ConstKind → String
  | int32 => "int"
  | int64 => "long"
  | float => "float"
  | double => "double"
  | utf8 => "utf8"
  | string => "string"
  | klass => "class"
  | nameType => "nametype"
  | fieldRef => "field"
  | methodRef => "method"
  | interfaceMethodRef => "imethod"
  | methodType => "methodtype"
  | methodHandle => "methodhandle"
  | invokeDynamic => "indy"
  | switchTable => "switch"

/-- One flat constant-pool entry; the kind says which fields are meaningful.
Floating-point payloads are kept as bit patterns. -/
structure Const where
  kind : ConstKind := .int32
  i32 : BitVec 32 := 0
  i64 : BitVec 64 := 0
  f32 : BitVec 32 := 0
  f64 : BitVec 64 := 0
  str : String := ""
  str2 : String := ""
  str3 : String := ""
  ints : List (BitVec 32) := []
  deriving DecidableEq, Repr

/-! ## Methods and programs -/

/-- An exception-table entry covering `[start, stop)`.  `catchType` is a pool
index of a class, or negative for catch-all. -/
structure ExceptionHandler where
  start : Nat
  stop : Nat
  handler : Nat
  catchType : Int
  deriving DecidableEq, Repr

/-- One method with its own constant pool. -/
structure Method where
  name : String := "main"
  descriptor : String := "()V"
  flags : BitVec 16 := 0
  numRegs : Nat := 0
  numLocals : Nat := 0
  code : List Ins := []
  cp : List Const := []
  handlers : List ExceptionHandler := []
  deriving DecidableEq, Repr

namespace Method

def isStatic (m : Method) : Bool := m.flags &&& 0x0008 != 0

def isSynchronized (m : Method) : Bool := m.flags &&& 0x0020 != 0

def isAbstract (m : Method) : Bool := m.flags &&& 0x0400 != 0

end Method

/-- A compilation unit: one class of methods. -/
structure Program where
  className : String := "Main"
  methods : List Method := []
  deriving DecidableEq, Repr

/-- First method with the given name and descriptor, as an index.  The source
returns a pointer into the method vector; its offset is this index. -/
def Program.find (p : Program) (name descriptor : String) : Option Nat :=
  p.methods.findIdx? fun m => m.name == name && m.descriptor == descriptor

/-! ## Descriptors

The parsers walk the descriptor text; the position the source keeps as an index
is the list of characters still to be read. -/

/-- Scan an internal class name up to its `;`.  A structural character inside
the name, or the end of the text, is malformed. -/
def scanClassName : List Char → Option (List Char)
  | [] => none
  | ';' :: rest => some rest
  | c :: rest => if c = '(' ∨ c = ')' ∨ c = '[' then none else scanClassName rest

/-- Parse one type that is not an array. -/
def parseElemAt (d : List Char) (voidOk subIntOk : Bool) : Option (RType × List Char) :=
  match d with
  | 'V' :: rest => if voidOk then some (.bottom, rest) else none
  | 'I' :: rest => some (.int, rest)
  | 'J' :: rest => some (.long, rest)
  | 'F' :: rest => some (.float, rest)
  | 'D' :: rest => some (.double, rest)
  | 'L' :: ';' :: _ => none
  | 'L' :: rest => (scanClassName rest).map fun r => (.ref, r)
  | 'Z' :: rest | 'B' :: rest | 'C' :: rest | 'S' :: rest =>
    if subIntOk then some (.int, rest) else none
  | _ => none

/-- Parse one descriptor type.  All leading brackets are consumed by a loop, so
the element parse behind them is never an array. -/
def parseTypeAt (d : List Char) (voidOk subIntOk : Bool) : Option (RType × List Char) :=
  match d with
  | '[' :: rest => (parseElemAt (rest.dropWhile (· == '[')) false true).map fun r => (.ref, r.2)
  | _ => parseElemAt d voidOk subIntOk

/-- Walk the parameter section: the parameter types and the text from the `)`
on.  Every type consumes a character, so the text's length bounds the walk. -/
def walkParams : Nat → List Char → Option (List RType × List Char)
  | _, [] => none
  | _, ')' :: rest => some ([], ')' :: rest)
  | 0, _ :: _ => none
  | fuel + 1, c :: cs => do
      let (t, rest) ← parseTypeAt (c :: cs) false false
      let (ts, rest') ← walkParams fuel rest
      return (t :: ts, rest')

/-- Parameter types of a method descriptor; `none` when it is malformed. -/
def parseParams (descriptor : String) : Option (List RType) :=
  match descriptor.toList with
  | '(' :: d => (walkParams d.length d).map Prod.fst
  | _ => none

/-- Return type of a method descriptor.  `bottom` means void, and also malformed. -/
def parseReturn (descriptor : String) : RType :=
  match descriptor.toList with
  | '(' :: d =>
    match walkParams d.length d with
    | some (_, _ :: rest) =>
      match parseTypeAt rest true false with
      | some (t, []) => t
      | _ => .bottom
    | _ => .bottom
  | _ => .bottom

/-- Number of parameter slots; malformed descriptors have none. -/
def paramCount (descriptor : String) : Nat :=
  ((parseParams descriptor).getD []).length

end B2Compiler.Rbc
