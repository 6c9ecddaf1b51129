import Mathlib.Logic.Relation
import B2Compiler.Ir.Graph
import B2Compiler.Interp.Value

/-!
# Executions of a graph

What a graph does at run time.  Control is a token that walks from the start node
along control and projection edges; a branch goes to the projection its condition
selects, a guard passes control on when its condition is not zero, terminators keep
it.  Entering a merge through its `j`-th input gives every phi of the merge the
value its `j`-th operand had before.

Pure arithmetic, comparisons and tests are functions of their operands and are read
off the graph.  Every other value (an argument, a load, a call result, a cast) is
whatever the callers, the heap and the callees make it, so it is free at every
step, except that a never-null node does not yield null.  The numeric operations
are those of the tier-0 interpreter.
-/

namespace B2Compiler.Ir

open Interp

/-! ## Run-time values -/

/-- A run-time value: the scalars as bits, references as object ids, and the
vectors and tagged words no modelled operation looks into. -/
inductive Val where
  | int (v : BitVec 32)
  | long (v : BitVec 64)
  | float (v : BitVec 32)
  | double (v : BitVec 64)
  | null
  | ref (obj : Nat)
  | other (bits : Nat)
  deriving DecidableEq, Repr, Inhabited

/-- What an execution takes from outside the graph: the floating-point operations
and the class test of an object against a type id. -/
structure World where
  ops : FloatOps
  isInstance : Nat → Nat → Bool

/-- A boolean test as an `int`. -/
def ofBool (b : Bool) : Val := .int (if b then 1 else 0)

def unaryOp (F : FloatOps) : NodeKind → Val → Option Val
  | .negI, .int a => some (.int (neg32 a))
  | .not, .int a => some (ofBool (a = 0))
  | .negL, .long a => some (.long (neg64 a))
  | .negF, .float a => some (.float (a ^^^ 0x80000000))
  | .negD, .double a => some (.double (a ^^^ 0x8000000000000000))
  | .i2l, .int a => some (.long (a.signExtend 64))
  | .l2i, .long a => some (.int (a.setWidth 32))
  | .i2b, .int a => some (.int ((a.setWidth 8).signExtend 32))
  | .i2c, .int a => some (.int ((a.setWidth 16).setWidth 32))
  | .i2s, .int a => some (.int ((a.setWidth 16).signExtend 32))
  | .i2f, .int a => some (.float (F.ofInt32F a))
  | .i2d, .int a => some (.double (F.ofInt32D a))
  | .l2f, .long a => some (.float (F.ofInt64F a))
  | .l2d, .long a => some (.double (F.ofInt64D a))
  | .f2i, .float a => some (.int (F.toInt32SatF a))
  | .f2l, .float a => some (.long (F.toInt64SatF a))
  | .f2d, .float a => some (.double (F.f2d a))
  | .d2i, .double a => some (.int (F.toInt32SatD a))
  | .d2l, .double a => some (.long (F.toInt64SatD a))
  | .d2f, .double a => some (.float (F.d2f a))
  | _, _ => none

/-- Two-operand operations.  A division by zero has no value: the guard in front of
it leaves the compiled code. -/
def binaryOp (F : FloatOps) : NodeKind → Val → Val → Option Val
  | .addI, .int a, .int b => some (.int (wrapAdd32 a b))
  | .subI, .int a, .int b => some (.int (wrapSub32 a b))
  | .mulI, .int a, .int b => some (.int (wrapMul32 a b))
  | .divI, .int a, .int b => if b = 0 then none else some (.int (divKernel a b))
  | .remI, .int a, .int b => if b = 0 then none else some (.int (remKernel a b))
  | .shlI, .int a, .int b => some (.int (a <<< (b &&& kIntShiftMask).toNat))
  | .shrI, .int a, .int b => some (.int (a.sshiftRight (b &&& kIntShiftMask).toNat))
  | .ushrI, .int a, .int b => some (.int (a >>> (b &&& kIntShiftMask).toNat))
  | .andI, .int a, .int b => some (.int (a &&& b))
  | .orI, .int a, .int b => some (.int (a ||| b))
  | .xorI, .int a, .int b => some (.int (a ^^^ b))
  | .addL, .long a, .long b => some (.long (wrapAdd64 a b))
  | .subL, .long a, .long b => some (.long (wrapSub64 a b))
  | .mulL, .long a, .long b => some (.long (wrapMul64 a b))
  | .divL, .long a, .long b => if b = 0 then none else some (.long (divKernel a b))
  | .remL, .long a, .long b => if b = 0 then none else some (.long (remKernel a b))
  | .shlL, .long a, .int b => some (.long (a <<< (b &&& kLongShiftMask).toNat))
  | .shrL, .long a, .int b => some (.long (a.sshiftRight (b &&& kLongShiftMask).toNat))
  | .ushrL, .long a, .int b => some (.long (a >>> (b &&& kLongShiftMask).toNat))
  | .andL, .long a, .long b => some (.long (a &&& b))
  | .orL, .long a, .long b => some (.long (a ||| b))
  | .xorL, .long a, .long b => some (.long (a ^^^ b))
  | .addF, .float a, .float b => some (.float (F.addF a b))
  | .subF, .float a, .float b => some (.float (F.subF a b))
  | .mulF, .float a, .float b => some (.float (F.mulF a b))
  | .divF, .float a, .float b => some (.float (F.divF a b))
  | .remF, .float a, .float b => some (.float (F.fmodF a b))
  | .addD, .double a, .double b => some (.double (F.addD a b))
  | .subD, .double a, .double b => some (.double (F.subD a b))
  | .mulD, .double a, .double b => some (.double (F.mulD a b))
  | .divD, .double a, .double b => some (.double (F.divD a b))
  | .remD, .double a, .double b => some (.double (F.fmodD a b))
  | .cmpI, .int a, .int b => some (.int (cmpKernel a b))
  | .cmpL, .long a, .long b => some (.int (cmpKernel a b))
  | .cmpFl, .float a, .float b => some (.int (F.cmpF (-1) a b))
  | .cmpFg, .float a, .float b => some (.int (F.cmpF 1 a b))
  | .cmpDl, .double a, .double b => some (.int (F.cmpD (-1) a b))
  | .cmpDg, .double a, .double b => some (.int (F.cmpD 1 a b))
  | .eqI, .int a, .int b => some (ofBool (a = b))
  | .neI, .int a, .int b => some (ofBool (a ≠ b))
  | .ltI, .int a, .int b => some (ofBool (a.toInt < b.toInt))
  | .leI, .int a, .int b => some (ofBool (a.toInt ≤ b.toInt))
  | .gtI, .int a, .int b => some (ofBool (b.toInt < a.toInt))
  | .geI, .int a, .int b => some (ofBool (b.toInt ≤ a.toInt))
  | _, _, _ => none

/-- Reference identity. -/
def sameRef : Val → Val → Option Bool
  | .null, .null => some true
  | .null, .ref _ => some false
  | .ref _, .null => some false
  | .ref a, .ref b => some (a = b)
  | _, _ => none

/-- The class test: null is an instance of nothing. -/
def classTest (W : World) (type : Nat) : Val → Option Bool
  | .null => some false
  | .ref obj => some (W.isInstance type obj)
  | _ => none

/-- The null test of a reference. -/
def nullTest : Val → Option Bool
  | .null => some true
  | .ref _ => some false
  | _ => none

/-- The value a constant node carries. -/
def Node.constant (nd : Node) : Option Val :=
  match nd.kind with
  | .constantI => some (.int (nd.constValue.setWidth 32))
  | .constantL => some (.long nd.constValue)
  | .constantF => some (.float (nd.constValue.setWidth 32))
  | .constantD => some (.double nd.constValue)
  | .constantNull => some .null
  | _ => none

/-! ## Kinds by the way they get a value -/

def NodeKind.isUnary : NodeKind → Bool
  | .negI | .not | .negL | .negF | .negD | .i2l | .l2i | .i2b | .i2c | .i2s | .i2f | .i2d
  | .l2f | .l2d | .f2i | .f2l | .f2d | .d2i | .d2l | .d2f => true
  | _ => false

/-- Kinds with a two-operand operation. -/
def NodeKind.isBinary : NodeKind → Bool
  | .addI | .subI | .mulI | .divI | .remI | .shlI | .shrI | .ushrI | .andI | .orI | .xorI
  | .addL | .subL | .mulL | .divL | .remL | .shlL | .shrL | .ushrL | .andL | .orL | .xorL
  | .addF | .subF | .mulF | .divF | .remF | .addD | .subD | .mulD | .divD | .remD
  | .cmpI | .cmpL | .cmpFl | .cmpFg | .cmpDl | .cmpDg
  | .eqI | .neI | .ltI | .leI | .gtI | .geI => true
  | _ => false

/-- Control and state nodes: the kinds whose result type is `bottom` because they
produce no value. -/
def NodeKind.isValueless : NodeKind → Bool
  | .start | .endNode | .region | .ifNode | .ifTrue | .ifFalse | .switchNode | .switchCase
  | .switchDefault | .loopBegin | .loopEnd | .loopExit | .returnNode | .unwind | .deopt
  | .storeField | .storeStatic | .storeElem | .memBar | .monitorEnter | .monitorExit
  | .classInit | .guardNode | .repTransitionGuard | .vectorStore | .frameState => true
  | _ => false

/-- Kinds whose value is held by the machine: the phis, set on entry to their merge,
and everything the world decides. -/
def NodeKind.isHeld (k : NodeKind) : Bool :=
  match k with
  | .constantI | .constantL | .constantF | .constantD | .constantNull
  | .isNull | .refEq | .instanceOf => false
  | _ => !k.isUnary && !k.isBinary && !k.isValueless

/-- Merges of control. -/
def NodeKind.isRegionLike (k : NodeKind) : Bool := k == .region || k == .loopBegin

/-- Kinds control does not leave. -/
def NodeKind.isTerminator : NodeKind → Bool
  | .returnNode | .unwind | .deopt | .endNode => true
  | _ => false

/-- The values held at one point of an execution. -/
abbrev Held := NodeId → Option Val

section

variable (g : Graph) (W : World)

inductive Evaluates (ρ : Held) : NodeId → Val → Prop
  | constant {n : NodeId} {v : Val} (hDead : g.isDead n = false)
      (hConst : (g.node n).constant = some v) : Evaluates ρ n v
  | held {n : NodeId} {v : Val} (hKind : (g.kind n).isHeld = true) (hHeld : ρ n = some v) :
      Evaluates ρ n v
  | unary {n x : NodeId} {a v : Val} (hKind : (g.kind n).isUnary = true)
      (hInput : g.input n 0 = some x) (hArg : Evaluates ρ x a)
      (hOp : unaryOp W.ops (g.kind n) a = some v) : Evaluates ρ n v
  | binary {n x y : NodeId} {a b v : Val} (hKind : (g.kind n).isBinary = true)
      (hLeft : g.input n 0 = some x) (hRight : g.input n 1 = some y)
      (hArg : Evaluates ρ x a) (hArg' : Evaluates ρ y b)
      (hOp : binaryOp W.ops (g.kind n) a b = some v) : Evaluates ρ n v
  | isNull {n x : NodeId} {a : Val} {b : Bool} (hKind : g.kind n = .isNull)
      (hInput : g.input n 0 = some x) (hArg : Evaluates ρ x a)
      (hTest : nullTest a = some b) : Evaluates ρ n (ofBool b)
  | instanceOf {n x : NodeId} {a : Val} {b : Bool} (hKind : g.kind n = .instanceOf)
      (hInput : g.input n 0 = some x) (hArg : Evaluates ρ x a)
      (hTest : classTest W (g.node n).payload a = some b) : Evaluates ρ n (ofBool b)
  | refEq {n x y : NodeId} {a c : Val} {b : Bool} (hKind : g.kind n = .refEq)
      (hLeft : g.input n 0 = some x) (hRight : g.input n 1 = some y)
      (hArg : Evaluates ρ x a) (hArg' : Evaluates ρ y c)
      (hTest : sameRef a c = some b) : Evaluates ρ n (ofBool b)

/-- `u` consumes the control of `n` at `slot`. -/
def Consumes (n u : NodeId) (slot : Nat) : Prop :=
  g.live u = true ∧ g.kind u ≠ .phi ∧ g.input u slot = some n ∧
    (g.roleOfSlot u slot = .ctrl ∨ g.roleOfSlot u slot = .parent)

/-- `u` is a live projection of `n` of the given kind. -/
def Projects (n u : NodeId) (kind : NodeKind) : Prop :=
  g.live u = true ∧ g.kind u = kind ∧ g.input u 0 = some n

/-- Control passes from `n` to `u`, entering `u` at `slot`. -/
inductive Flows (ρ : Held) (n u : NodeId) : Nat → Prop
  | ifTrue {c : NodeId} {v : BitVec 32} (hKind : g.kind n = .ifNode)
      (hCond : g.input n 1 = some c) (hVal : Evaluates g W ρ c (.int v)) (hTaken : v ≠ 0)
      (hProj : Projects g n u .ifTrue) : Flows ρ n u 0
  | ifFalse {c : NodeId} (hKind : g.kind n = .ifNode)
      (hCond : g.input n 1 = some c) (hVal : Evaluates g W ρ c (.int 0))
      (hProj : Projects g n u .ifFalse) : Flows ρ n u 0
  | switchCase (hKind : g.kind n = .switchNode) (hProj : Projects g n u .switchCase) : Flows ρ n u 0
  | switchDefault (hKind : g.kind n = .switchNode) (hProj : Projects g n u .switchDefault) :
      Flows ρ n u 0
  | pass {c : NodeId} {v : BitVec 32} {slot : Nat} (hKind : g.kind n = .guardNode)
      (hCond : g.input n 1 = some c) (hVal : Evaluates g W ρ c (.int v)) (hTaken : v ≠ 0)
      (hNext : Consumes g n u slot) : Flows ρ n u slot
  | next {slot : Nat} (hIf : g.kind n ≠ .ifNode) (hSwitch : g.kind n ≠ .switchNode)
      (hGuard : g.kind n ≠ .guardNode) (hTerm : (g.kind n).isTerminator = false)
      (hNext : Consumes g n u slot) : Flows ρ n u slot

/-! ## Runs -/

/-- A point of an execution: where control is and what is held. -/
structure Point where
  ctrl : NodeId
  held : Held

/-- The never-null facts of the graph are facts of the execution. -/
def NullFacts (ρ : Held) : Prop :=
  ∀ n v, g.isNeverNullNode n = true → Evaluates g W ρ n v → v ≠ .null

/-- What the phis hold after control moved from `σ` to `τ` through `slot`: a phi of
the entered node takes its operand for that slot, every other phi keeps its value. -/
def PhisMoved (σ τ : Point) (slot : Nat) : Prop :=
  ∀ p v, g.live p = true → g.kind p = .phi → τ.held p = some v → (g.input p 0 = some τ.ctrl →
      ∃ x, g.input p (slot + 1) = some x ∧ Evaluates g W σ.held x v) ∧
    (g.input p 0 ≠ some τ.ctrl → σ.held p = some v)

/-- One step of an execution. -/
def Step (σ τ : Point) : Prop :=
  ∃ slot, Flows g W σ.held σ.ctrl τ.ctrl slot ∧ PhisMoved g W σ τ slot ∧ NullFacts g W τ.held

/-- The points an execution can start from: control at the start node, no phi set. -/
def Initial (σ : Point) : Prop :=
  σ.ctrl = Graph.startNode ∧ g.live Graph.startNode = true ∧
    (∀ p, g.live p = true → g.kind p = .phi → σ.held p = none) ∧ NullFacts g W σ.held

/-- The points of all executions: any arguments, any path. -/
def Reached (τ : Point) : Prop :=
  ∃ σ, Initial g W σ ∧ Relation.ReflTransGen (Step g W) σ τ

end

end B2Compiler.Ir
