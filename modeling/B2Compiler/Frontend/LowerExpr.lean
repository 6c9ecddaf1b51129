import B2Compiler.Frontend.FoldInt

/-!
# Lowering of operators

The part of the expression lowering that emits literals, prefix operators and binary operators.
An error ends the lowering of the method, so its message stands for the outcome.  The forms
that are not looked into are parameters.
-/

namespace B2Compiler.Frontend

open Rbc

/-- One value produced by the lowering: a register and its static type. -/
structure Val where
  reg : BitVec 16 := 0
  type : JType := {}
  deriving DecidableEq, Repr

abbrev Lowered := Except String (Val × RbcBuilder)

structure Forms where
  expr : Nat → RbcBuilder → Lowered
  incDec : UnaryOp → Expr → RbcBuilder → Lowered
  toFloat : BitVec 64 → BitVec 32

/-- The register handed out, kept in 16 bits, and the builder behind it. -/
def newReg (b : RbcBuilder) : BitVec 16 × RbcBuilder := (b.numRegs.setWidth 16, b.newReg)

/-- The label handed out is the old number of labels. -/
def newLabel (b : RbcBuilder) : Nat × RbcBuilder := (b.boundAt.length, b.newLabel)

/-! ## Conversions -/

/-- One conversion instruction into a new register. -/
def conv (op : Op) (reg : BitVec 16) (b : RbcBuilder) : BitVec 16 × RbcBuilder :=
  let (d, b) := newReg b
  (d, b.emitRegReg op d reg)

/-- From a type wider than int to one narrower, by way of int. -/
def viaInt (op narrow : Op) (reg : BitVec 16) (b : RbcBuilder) : BitVec 16 × RbcBuilder :=
  let (i, b) := conv op reg b
  conv narrow i b

def emitConvert (reg : BitVec 16) (source target : JType) (b : RbcBuilder) :
    BitVec 16 × RbcBuilder :=
  let fromInt := source.isIntFamily
  match target.kind, source.kind with
  | .err, _ | _, .err => (reg, b)
  | .long, .long | .float, .float | .double, .double => (reg, b)
  | .long, .float => conv .f2l reg b
  | .long, .double => conv .d2l reg b
  | .long, _ => if fromInt then conv .i2l reg b else (reg, b)
  | .float, .long => conv .l2f reg b
  | .float, .double => conv .d2f reg b
  | .float, _ => if fromInt then conv .i2f reg b else (reg, b)
  | .double, .long => conv .l2d reg b
  | .double, .float => conv .f2d reg b
  | .double, _ => if fromInt then conv .i2d reg b else (reg, b)
  | .int, .long | .bool, .long => conv .l2i reg b
  | .int, .float | .bool, .float => conv .f2i reg b
  | .int, .double | .bool, .double => conv .d2i reg b
  | .byte, .byte | .short, .short | .short, .byte | .char, .char => (reg, b)
  | .byte, .long => viaInt .l2i .i2b reg b
  | .byte, .float => viaInt .f2i .i2b reg b
  | .byte, .double => viaInt .d2i .i2b reg b
  | .byte, _ => if fromInt then conv .i2b reg b else (reg, b)
  | .short, .long => viaInt .l2i .i2s reg b
  | .short, .float => viaInt .f2i .i2s reg b
  | .short, .double => viaInt .d2i .i2s reg b
  | .short, _ => if fromInt then conv .i2s reg b else (reg, b)
  | .char, .long => viaInt .l2i .i2c reg b
  | .char, .float => viaInt .f2i .i2c reg b
  | .char, .double => viaInt .d2i .i2c reg b
  | .char, _ => if fromInt then conv .i2c reg b else (reg, b)
  | _, _ => (reg, b)

/-- The operator's instruction for the family of its operands. -/
def arithOpOf (op : BinaryOp) (family : JK) : Op :=
  let pick (i l f d : Op) : Op :=
    if family = .long then l else if family = .float then f else if family = .double then d else i
  let pickInt (i l : Op) : Op := if family = .long then l else i
  match op with
  | .mul => pick .imul .lmul .fmul .dmul
  | .div => pick .idiv .ldiv .fdiv .ddiv
  | .mod => pick .irem .lrem .frem .drem
  | .add => pick .iadd .ladd .fadd .dadd
  | .sub => pick .isub .lsub .fsub .dsub
  | .shl => pickInt .ishl .lshl
  | .shr => pickInt .ishr .lshr
  | .ushr => pickInt .iushr .lushr
  | .and => pickInt .iand .land
  | .or => pickInt .ior .lor
  | .xor => pickInt .ixor .lxor
  | _ => .nop

def isShift (op : BinaryOp) : Bool := op == .shl || op == .shr || op == .ushr

def isBitwise (op : BinaryOp) : Bool := op == .and || op == .or || op == .xor || isShift op

def isCompare (op : BinaryOp) : Bool :=
  op == .lt || op == .gt || op == .le || op == .ge || op == .eq || op == .ne

def emitConst (op : Op) (imm : BitVec 32) (type : JType) (b : RbcBuilder) : Val × RbcBuilder :=
  let (r, b) := newReg b
  (⟨r, type⟩, b.emitRegImm op r imm)

def emitPooled (op : Op) (c : RbcBuilder → RbcBuilder × Nat) (type : JType) (b : RbcBuilder) :
    Val × RbcBuilder :=
  let (r, b) := newReg b
  let (b, i) := c b
  (⟨r, type⟩, b.emitRegCp op r (BitVec.ofNat 32 i))

def lowerLiteral (F : Forms) (l : Literal) (b : RbcBuilder) : Val × RbcBuilder :=
  match l.lit with
  | .int => emitConst .iconst (l.intValue.setWidth 32) (.prim .int) b
  | .long => emitPooled .lconst (·.constLong l.intValue) (.prim .long) b
  | .float => emitConst .fconst (F.toFloat l.floatValue) (.prim .float) b
  | .double => emitPooled .dconst (·.constDouble l.floatValue) (.prim .double) b
  | .char => emitConst .iconst (l.intValue.setWidth 32) (.prim .char) b
  | .boolean => emitConst .iconst (if l.intValue ≠ 0 then 1 else 0) (.prim .bool) b
  | .string => emitPooled .ldc (·.constString l.stringValue) (.ref "java/lang/String") b
  | .null => emitConst .aconstNull 0 (.prim .null) b

/-! ## Prefix operators -/

def badOperand (t : JType) (what : String) : String :=
  "bad operand type " ++ t.display ++ " for " ++ what

/-- The constant a negated literal becomes, for a float or a double. -/
def negatedLiteral (F : Forms) (operand : Expr) (b : RbcBuilder) : Option (Val × RbcBuilder) :=
  match operand with
  | .literal l =>
    match l.lit with
    | .float => some (emitConst .fconst (F.toFloat l.floatValue ^^^ 0x80000000) (.prim .float) b)
    | .double =>
      some (emitPooled .dconst (·.constDouble (l.floatValue ^^^ 0x8000000000000000))
        (.prim .double) b)
    | _ => none
  | _ => none

/-- Unary promotion. -/
def unaryType (t : JType) : JType := if t.isIntFamily then .prim .int else t

def negOp (k : JK) : Op :=
  if k = .long then .lneg else if k = .float then .fneg else if k = .double then .dneg else .ineg

def lowerMinus (F : Forms) (operand : Expr) (v : Val) (b : RbcBuilder) : Lowered :=
  if !v.type.isNumeric || v.type.kind == .bool then
    .error (badOperand v.type "unary '-' (expected: a numeric operand)")
  else match negatedLiteral F operand b with
    | some folded => .ok folded
    | none =>
      let t := unaryType v.type
      let (ar, b) := emitConvert v.reg v.type t b
      let (r, b) := newReg b
      .ok (⟨r, t⟩, b.emitRegReg (negOp t.kind) r ar)

/-- There is no instruction for it: an exclusive or with all ones. -/
def lowerBitNot (v : Val) (b : RbcBuilder) : Lowered :=
  if !v.type.isIntFamily && v.type.kind != .long then
    .error (badOperand v.type "'~' (expected: int or long)")
  else
    let t := unaryType v.type
    let (ar, b) := emitConvert v.reg v.type t b
    let (m, b) :=
      if t.kind = .long then emitPooled .lconst (·.constLong (-1)) t b
      else emitConst .iconst 0xFFFFFFFF t b
    let (r, b) := newReg b
    .ok (⟨r, t⟩, b.emitRegRegReg (if t.kind = .long then .lxor else .ixor) r ar m.reg)

def lowerLogicalNot (v : Val) (b : RbcBuilder) : Lowered :=
  if v.type.kind ≠ .bool then .error (badOperand v.type "'!' (expected: boolean)")
  else
    let (one, b) := emitConst .iconst 1 (.prim .bool) b
    let (r, b) := newReg b
    .ok (⟨r, .prim .bool⟩, b.emitRegRegReg .ixor r v.reg one.reg)

def lowerPrefix (F : Forms) (op : UnaryOp) (operand : Expr) (v : Val) (b : RbcBuilder) :
    Lowered :=
  match op with
  | .plus =>
    if !v.type.isNumeric || v.type.kind == .bool then
      .error (badOperand v.type "unary '+' (expected: a numeric operand)")
    else .ok (⟨v.reg, unaryType v.type⟩, b)
  | .minus => lowerMinus F operand v b
  | .bitNot => lowerBitNot v b
  | .logicalNot => lowerLogicalNot v b
  | .preInc | .preDec => .error ""

/-! ## Binary operators -/

/-- A register that is 1 behind a taken branch and 0 behind one that is not. -/
def emitTruth (branch : RbcBuilder → Nat → RbcBuilder) (b : RbcBuilder) : Val × RbcBuilder :=
  let (lTrue, b) := newLabel b
  let (lEnd, b) := newLabel b
  let (r, b) := newReg b
  let b := branch b lTrue
  let b := b.emitRegImm .iconst r 0
  let b := b.emitBranch .goto lEnd
  let b := b.bind lTrue
  let b := b.emitRegImm .iconst r 1
  (⟨r, .prim .bool⟩, b.bind lEnd)

def lowerRefCompare (op : BinaryOp) (x y : Val) (b : RbcBuilder) : Lowered :=
  if op ≠ .eq ∧ op ≠ .ne then
    .error ("reference operands only support == and != (expected: reference equality, not " ++
      "ordering)")
  else
    let onNull : Op := if op = .eq then .ifnull else .ifnonnull
    .ok <| emitTruth (fun b l =>
      if x.type.kind = .null ∧ y.type.kind ≠ .null then b.emitRegBranch onNull y.reg l
      else if y.type.kind = .null then b.emitRegBranch onNull x.reg l
      else b.emitRegRegBranch (if op = .eq then .ifAcmpeq else .ifAcmpne) x.reg y.reg l) b

def compareSpelling : BinaryOp → String
  | .eq => "=="
  | .ne => "!="
  | .lt => "<"
  | .gt => ">"
  | .le => "<="
  | _ => ">="

/-- The comparison that makes a NaN come out as the operator wants it. -/
def compareOp (op : BinaryOp) (k : JK) : Op :=
  let less := op == .lt || op == .le
  if k = .long then .lcmp
  else if k = .float then if less then .fcmpg else .fcmpl
  else if k = .double then if less then .dcmpg else .dcmpl
  else .icmp

def compareBranch : BinaryOp → Op
  | .lt => .iflt
  | .gt => .ifgt
  | .le => .ifle
  | .ge => .ifge
  | .ne => .ifne
  | _ => .ifeq

def notNumeric (x y : Val) : Bool :=
  !x.type.isNumeric || !y.type.isNumeric || x.type.kind == .bool || y.type.kind == .bool

def badOperands (x y : Val) (what : String) : String :=
  "bad operand types " ++ x.type.display ++ " and " ++ y.type.display ++ " for " ++ what

def lowerCompare (op : BinaryOp) (x y : Val) (b : RbcBuilder) : Lowered :=
  if x.type.isRefLike && y.type.isRefLike then lowerRefCompare op x y b
  else if notNumeric x y then
    .error (badOperands x y (compareSpelling op ++ " (expected: numeric or reference operands)"))
  else
    let p := promote x.type y.type
    let (ar, b) := emitConvert x.reg x.type p b
    let (br, b) := emitConvert y.reg y.type p b
    let (c, b) := newReg b
    let b := b.emitRegRegReg (compareOp op p.kind) c ar br
    .ok (emitTruth (fun b l => b.emitRegBranch (compareBranch op) c l) b)

def isFloating (t : JType) : Bool := t.kind == .float || t.kind == .double

/-- The type of the left operand decides, the count stays an int. -/
def lowerShift (op : BinaryOp) (x y : Val) (b : RbcBuilder) : Lowered :=
  let lt := unaryType x.type
  let (ar, b) := emitConvert x.reg x.type lt b
  if !y.type.isIntFamily || y.type.kind == .bool then
    .error ("shift count must be int, found " ++ y.type.display ++
      " (expected: an int-valued expression)")
  else
    let (r, b) := newReg b
    .ok (⟨r, lt⟩, b.emitRegRegReg (arithOpOf op lt.kind) r ar y.reg)

def lowerArith (op : BinaryOp) (x y : Val) (b : RbcBuilder) : Lowered :=
  if notNumeric x y then
    .error (badOperands x y ("binary operator (expected: numeric operands; boxing/unboxing " ++
      "arrives with the binding stage)"))
  else if isBitwise op && (isFloating x.type || isFloating y.type) then
    .error ("bitwise/shift operators are not defined for floating-point operands (expected: " ++
      "int or long operands)")
  else if isShift op then lowerShift op x y b
  else
    let p := promote x.type y.type
    let (ar, b) := emitConvert x.reg x.type p b
    let (br, b) := emitConvert y.reg y.type p b
    let (r, b) := newReg b
    .ok (⟨r, p⟩, b.emitRegRegReg (arithOpOf op p.kind) r ar br)

def lowerBinary (op : BinaryOp) (x y : Val) (b : RbcBuilder) : Lowered :=
  if op = .add ∧ (x.type.isString ∨ y.type.isString) then
    .error ("string concatenation ('+') is not supported by v0 lowering (expected: numeric " ++
      "operands; String builtins arrive with the runtime builtins RFC)")
  else if isCompare op then lowerCompare op x y b
  else lowerArith op x y b

/-- A condition. -/
def asBool (x : Val × RbcBuilder) : Lowered :=
  if x.1.type.kind ≠ .bool then
    .error ("condition has type " ++ x.1.type.display ++
      ", expected boolean (expected: a boolean expression)")
  else .ok x

/-- The left operand of a logical operator is there: the branch around the right one. -/
def beginLogical (isAnd : Bool) (x : Val) (b : RbcBuilder) : Nat × Nat × BitVec 16 × RbcBuilder :=
  let (lShort, b) := newLabel b
  let (lEnd, b) := newLabel b
  let (r, b) := newReg b
  (lShort, lEnd, r, b.emitRegBranch (if isAnd then .ifeq else .ifne) x.reg lShort)

def endLogical (isAnd : Bool) (lShort lEnd : Nat) (r : BitVec 16) (y : Val) (b : RbcBuilder) :
    Val × RbcBuilder :=
  let b := b.emitRegBranch (if isAnd then .ifeq else .ifne) y.reg lShort
  let b := b.emitRegImm .iconst r (if isAnd then 1 else 0)
  let b := b.emitBranch .goto lEnd
  let b := b.bind lShort
  let b := b.emitRegImm .iconst r (if isAnd then 0 else 1)
  (⟨r, .prim .bool⟩, b.bind lEnd)

def lowerExpr (F : Forms) : Expr → RbcBuilder → Lowered
  | .literal l, b => .ok (lowerLiteral F l b)
  | .paren inner, b => lowerExpr F inner b
  | .prefixUnary op operand, b =>
    if op = .preInc ∨ op = .preDec then F.incDec op operand b
    else do
      let (v, b) ← lowerExpr F operand b
      lowerPrefix F op operand v b
  | .binary op lhs rhs, b =>
    if isLogical op then do
      let (x, b) ← lowerExpr F lhs b >>= asBool
      let (lShort, lEnd, r, b) := beginLogical (op == .cand) x b
      let (y, b) ← lowerExpr F rhs b >>= asBool
      return endLogical (op == .cand) lShort lEnd r y b
    else do
      let (x, b) ← lowerExpr F lhs b
      let (y, b) ← lowerExpr F rhs b
      lowerBinary op x y b
  | .other id, b => F.expr id b

/-! ## Assignments -/

/-- Conversions that an assignment makes without a constant. -/
def widensTo (source target : JType) : Bool :=
  if source.kind = target.kind then true
  else match source.kind, target.kind with
    | .null, .ref => true
    | .byte, .short | .byte, .int | .byte, .long | .byte, .float | .byte, .double => true
    | .short, .int | .short, .long | .short, .float | .short, .double => true
    | .char, .int | .char, .long | .char, .float | .char, .double => true
    | .int, .long | .int, .float | .int, .double => true
    | .long, .float | .long, .double | .float, .double => true
    | _, _ => false

def loOf : JK → Int
  | .byte => -128
  | .short => -32768
  | .int => -2147483648
  | _ => 0

def hiOf : JK → Int
  | .byte => 127
  | .short => 32767
  | .char => 65535
  | .int => 2147483647
  | .bool => 1
  | _ => 0

def incompatible (source target : JType) : String :=
  "incompatible types: " ++ source.display ++ " cannot be converted to " ++ target.display

/-- The conversion of an assignment; a constant may be narrowed. -/
def emitAssignConvert (reg : BitVec 16) (source target : JType) (fold : Option Int)
    (b : RbcBuilder) : Except String (BitVec 16 × RbcBuilder) :=
  if widensTo source target then .ok (emitConvert reg source target b)
  else if target.isRefLike && source.isNumeric then
    .error (incompatible source target ++
      " (expected: a primitive type; boxing is not supported by v0 lowering and arrives with " ++
      "the binding stage)")
  else if target.isNumeric && source.isRefLike then
    .error (incompatible source target ++
      " (expected: a primitive value; unboxing is not supported by v0 lowering and arrives " ++
      "with the binding stage)")
  else match fold with
    | some v =>
      if constantInRange target.kind v then
        .ok (emitConvert reg (.prim .int) target b)
      else
        .error ("possible lossy conversion from " ++ source.display ++ " to " ++
          target.display ++ " (expected: a constant in [" ++ toString (loOf target.kind) ++
          ", " ++ toString (hiOf target.kind) ++ "] or an explicit cast)")
    | none =>
      .error (incompatible source target ++
        " without a cast (expected: an explicit cast or a matching type)")

/-- An expression where a type is expected.  Undefined arithmetic in the fold has no outcome of
its own here; it stands with the errors. -/
def lowerExprTo (F : Forms) (e : Expr) (target : JType) (context : String) (b : RbcBuilder) :
    Lowered := do
  let fold ← match foldInt e with
    | .undefined => .error "undefined"
    | .no => .ok none
    | .yes v _ => .ok (some v)
  let (v, b) ← lowerExpr F e b
  if target.kind = .err ∨ target.kind = .void then return (v, b)
  if v.type.kind = .void then
    .error (context ++ ": a void result cannot be used as a value (expected: a non-void " ++
      "expression)")
  let (r, b) ← emitAssignConvert v.reg v.type target fold b
  return (⟨r, target⟩, b)

end B2Compiler.Frontend
