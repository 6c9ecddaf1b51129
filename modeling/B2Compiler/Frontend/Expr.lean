import B2Compiler.Rbc.MethodBuilder

/-!
# Static types and the expressions that fold

The types of the lowering, and the expressions as far as constants are made of them: literals,
parentheses, prefix and binary operators.  Any other form is opaque here.
-/

namespace B2Compiler.Frontend

/-! ## Types -/

inductive JK where
  | err | void | bool | byte | short | char | int | long | float | double | null | ref
  deriving DecidableEq, Repr, Inhabited

/-- A static type; the name is that of a class or an array descriptor. -/
structure JType where
  kind : JK := .err
  name : String := ""
  deriving DecidableEq, Repr, Inhabited

namespace JType

def prim (k : JK) : JType := { kind := k }

def ref (name : String) : JType := { kind := .ref, name := name }

def isNumeric (t : JType) : Bool :=
  match t.kind with
  | .bool | .byte | .short | .char | .int | .long | .float | .double => true
  | _ => false

/-- What lives in registers of type int. -/
def isIntFamily (t : JType) : Bool :=
  match t.kind with
  | .bool | .byte | .short | .char | .int => true
  | _ => false

def isRefLike (t : JType) : Bool := t.kind == .ref || t.kind == .null

def isString (t : JType) : Bool := t.kind == .ref && t.name == "java/lang/String"

def display (t : JType) : String :=
  match t.kind with
  | .bool => "boolean"
  | .byte => "byte"
  | .short => "short"
  | .char => "char"
  | .int => "int"
  | .long => "long"
  | .float => "float"
  | .double => "double"
  | .void => "void"
  | .null => "null"
  | .ref =>
    if t.name.toList.head? = some '[' then t.name
    else String.ofList (t.name.toList.map fun c => if c = '/' then '.' else c)
  | .err => "<error>"

end JType

/-- Binary numeric promotion. -/
def promote (a b : JType) : JType :=
  if a.kind = .double ∨ b.kind = .double then .prim .double
  else if a.kind = .float ∨ b.kind = .float then .prim .float
  else if a.kind = .long ∨ b.kind = .long then .prim .long
  else .prim .int

/-! ## Expressions -/

inductive LitKind where
  | int | long | float | double | char | boolean | string | null
  deriving DecidableEq, Repr, Inhabited

inductive UnaryOp where
  | plus | minus | bitNot | logicalNot | preInc | preDec
  deriving DecidableEq, Repr, Inhabited

inductive BinaryOp where
  | mul | div | mod | add | sub | shl | shr | ushr
  | lt | gt | le | ge | eq | ne
  | and | xor | or | cand | cor
  deriving DecidableEq, Repr, Inhabited

/-- A literal; `floatValue` holds the bits of a double. -/
structure Literal where
  lit : LitKind
  intValue : BitVec 64 := 0
  floatValue : BitVec 64 := 0
  stringValue : String := ""
  deriving DecidableEq, Repr, Inhabited

/-- An expression; `other` is any form that is not folded. -/
inductive Expr where
  | literal (l : Literal)
  | paren (inner : Expr)
  | prefixUnary (op : UnaryOp) (operand : Expr)
  | binary (op : BinaryOp) (lhs rhs : Expr)
  | other (id : Nat)
  deriving DecidableEq, Repr, Inhabited

namespace Expr

def int (v : BitVec 64) : Expr := .literal { lit := .int, intValue := v }

end Expr

end B2Compiler.Frontend
