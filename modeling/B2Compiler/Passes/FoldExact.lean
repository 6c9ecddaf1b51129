import B2Compiler.Interp.Dispatch
import B2Compiler.Passes.SccpCorrect

/-!
# Constant folding against the interpreter

For every instruction with an `int` or `long` operand or result, the node the graph
builder emits is folded over constant operands by the shared evaluator, directly in the
simplifier and through the lattice in the constant propagation.  `fold_exact` compares
that fold with the interpreter's handler of the same instruction: they agree, and the
fold is refused exactly where the handler raises, except for the shifts of a `long`.
-/

namespace B2Compiler.Passes

open Interp Option Sccp
open Ir
open Lib
open Rbc

/-- Where a node input comes from: the value of a register, or a constant of the
instruction. -/
inductive Source where
  | reg (r : Nat)
  | int (v : BitVec 32)
  deriving DecidableEq, Repr

/-- The node emitted for an instruction that computes with `int`s or `long`s: its kind
and its inputs.  A conditional branch emits the test it branches on. -/
def emitNode (ins : Ins) : Option (NodeKind × List Source) :=
  let unary (k : NodeKind) := some (k, [Source.reg ins.aReg])
  let binary (k : NodeKind) := some (k, [Source.reg ins.aReg, Source.reg ins.bReg])
  let testZero (k : NodeKind) := some (k, [Source.reg ins.aReg, Source.int 0])
  match ins.op with
  | .iadd => binary .addI
  | .isub => binary .subI
  | .imul => binary .mulI
  | .idiv => binary .divI
  | .irem => binary .remI
  | .ineg => unary .negI
  | .ishl => binary .shlI
  | .ishr => binary .shrI
  | .iushr => binary .ushrI
  | .iand => binary .andI
  | .ior => binary .orI
  | .ixor => binary .xorI
  | .iinc => some (.addI, [.reg ins.dstReg, .int ins.imm])
  | .ladd => binary .addL
  | .lsub => binary .subL
  | .lmul => binary .mulL
  | .ldiv => binary .divL
  | .lrem => binary .remL
  | .lneg => unary .negL
  | .lshl => binary .shlL
  | .lshr => binary .shrL
  | .lushr => binary .ushrL
  | .land => binary .andL
  | .lor => binary .orL
  | .lxor => binary .xorL
  | .icmp => binary .cmpI
  | .lcmp => binary .cmpL
  | .i2l => unary .i2l
  | .i2f => unary .i2f
  | .i2d => unary .i2d
  | .l2i => unary .l2i
  | .l2f => unary .l2f
  | .l2d => unary .l2d
  | .f2i => unary .f2i
  | .f2l => unary .f2l
  | .d2i => unary .d2i
  | .d2l => unary .d2l
  | .i2b => unary .i2b
  | .i2c => unary .i2c
  | .i2s => unary .i2s
  | .ifeq => testZero .eqI
  | .ifne => testZero .neI
  | .iflt => testZero .ltI
  | .ifge => testZero .geI
  | .ifgt => testZero .gtI
  | .ifle => testZero .leI
  | .ifIcmpeq => binary .eqI
  | .ifIcmpne => binary .neI
  | .ifIcmplt => binary .ltI
  | .ifIcmpge => binary .geI
  | .ifIcmpgt => binary .gtI
  | .ifIcmple => binary .leI
  | _ => none

/-- The shifts of a `long`, whose count is an `int`. -/
def isLongShift : Op → Bool
  | .lshl | .lshr | .lushr => true
  | _ => false

/-- The constant a register value is. -/
def constOfValue (v : Value) : ConstVal :=
  match v.type with
  | .int => .i v.asInt
  | .long => .l v.asLong
  | .float => .f v.asFloat
  | .double => .d v.asDouble
  | _ => .null

def ConstVal.toValue : ConstVal → Value
  | .i v => .intVal v
  | .l v => .longVal v
  | .f v => .floatVal v
  | .d v => .doubleVal v
  | .null => .nullVal

/-- The constant at a node input when the registers hold `reg`. -/
def Source.const (reg : Nat → Value) : Source → ConstVal
  | .reg r => constOfValue (reg r)
  | .int v => .i v

/-- The registers an instruction reads hold values of the types its table row asks for;
`iinc` reads its own destination. -/
structure OperandsTyped (ins : Ins) (reg : Nat → Value) : Prop where
  a : (Rbc.info ins.op).operandA ≠ .bottom → (reg ins.aReg).type = (Rbc.info ins.op).operandA
  b : (Rbc.info ins.op).operandB ≠ .bottom → (reg ins.bReg).type = (Rbc.info ins.op).operandB
  dst : ins.op = .iinc → (reg ins.dstReg).type = .int

/-! ## The two computations -/

/-- The simplifier's fold of a node over constant inputs. -/
def foldNode (F : FloatOps) (k : NodeKind) : List ConstVal → Option ConstVal
  | [a] => evalUnaryOp F k a
  | [a, b] => evalBinOp F k a b
  | _ => none

/-- What the interpreter computes for an instruction: the value written to `dst` or the
arithmetic exception, and for a conditional branch the test as an `int`. -/
def outcome (F : FloatOps) (ins : Ins) (reg : Nat → Value) : Option ArithResult :=
  match arith F ins reg with
  | some r => some r
  | none => (branchTaken ins reg).map fun taken => .value (.intVal (if taken then 1 else 0))

def ofFolded : Option ConstVal → ArithResult
  | some c => .value c.toValue
  | none => .divByZero

/-- Node `n` of `g` has kind `k`, and the constant propagation knows its inputs to be
the constants `cs`. -/
structure KnownInputs (g : Graph) (s : Sccp) (n : NodeId) (k : NodeKind)
    (cs : List ConstVal) : Prop where
  kind : g.kind n = k
  inputs : ∀ i (hi : i < cs.length), s.operand g n i = .const (cs.get ⟨i, hi⟩)

/-- What the interpreter does with a result: branch on a test, write a value to `dst`,
or raise. -/
def perform (E : Env) (m : Machine) (f : Frame) (ins : Ins) : ArithResult → Flow
  | .value v =>
    if hasEff (Rbc.info ins.op).effects .canBranch then
      if v.asInt = 1 then jump m f ins.immIdx else next m f
    else put m f ins v
  | .divByZero => raise E m kClsArithmetic kMsgDivByZero

/-- The fold of the node `k` over the inputs `srcs` is what the interpreter computes for
the instruction in the frame `f`: every folded value is the handler's, the fold is refused
exactly when the handler raises, and the same holds of the constant propagation, where a
refusal leaves the node without a constant.  `handler` is the whole step. -/
structure FoldsExactly (E : Env) (f : Frame) (ins : Ins) (k : NodeKind)
    (srcs : List Source) : Prop where
  value : ∀ c, foldNode E.host.ops k (srcs.map (Source.const f.reg)) = some c →
    outcome E.host.ops ins f.reg = some (.value c.toValue)
  refused : foldNode E.host.ops k (srcs.map (Source.const f.reg)) = none ↔
    outcome E.host.ops ins f.reg = some .divByZero
  sccpValue : ∀ g s n, KnownInputs g s n k (srcs.map (Source.const f.reg)) →
    ∀ c, s.evalNode g E.host.ops n = .const c →
      outcome E.host.ops ins f.reg = some (.value c.toValue)
  sccpRefused : ∀ g s n, KnownInputs g s n k (srcs.map (Source.const f.reg)) →
    ((∀ c, s.evalNode g E.host.ops n ≠ .const c) ↔ outcome E.host.ops ins f.reg = some .divByZero)
  handler : ∀ m, exec E m f ins =
    perform E m f ins (ofFolded (foldNode E.host.ops k (srcs.map (Source.const f.reg))))

variable {ins : Ins} {k : NodeKind} {srcs : List Source} {F : FloatOps}

/-- An emitted node has one input and a kind evaluated as unary, or two inputs and a kind
evaluated as binary. -/
theorem emitNode_arity (h : emitNode ins = some (k, srcs)) :
    (isUnaryEvalK k = true ∧ ∃ a, srcs = [a]) ∨
      (isBinaryEvalK k = true ∧ ∃ a b, srcs = [a, b]) := by
  unfold emitNode at h
  split at h
  all_goals
    cases h <;>
      first
        | exact Or.inl ⟨rfl, _, rfl⟩
        | exact Or.inr ⟨rfl, _, _, rfl⟩

theorem evalNode_eq_fold {g : Graph} {s : Sccp} {n : NodeId} {cs : List ConstVal}
    (hk : KnownInputs g s n k cs) (hArity : (isUnaryEvalK k = true ∧ cs.length = 1) ∨
      (isBinaryEvalK k = true ∧ cs.length = 2)) : s.evalNode g F n = ofFold (foldNode F k cs) := by
  obtain ⟨hKind, hIn⟩ := hk
  rcases hArity with ⟨hUnary, hLen⟩ | ⟨hBinary, hLen⟩
  · obtain ⟨a, rfl⟩ := List.length_eq_one_iff.mp hLen
    have hA : s.operand g n 0 = .const a := hIn 0 (by simp)
    have hNot : k ≠ .phi ∧ ¬ (k = .isNull ∨ k = .instanceOf) ∧ k ≠ .refEq := by
      cases k <;> first | (cases hUnary; done) | decide
    simp only [evalNode, hKind, if_neg hNot.1, if_neg hNot.2.1, if_neg hNot.2.2,
      if_pos hUnary, evalUnary, hA, foldNode]
  · obtain ⟨a, b, rfl⟩ := List.length_eq_two.mp hLen
    have hA : s.operand g n 0 = .const a := hIn 0 (by simp)
    have hB : s.operand g n 1 = .const b := hIn 1 (by simp)
    have hNot : k ≠ .phi ∧ ¬ (k = .isNull ∨ k = .instanceOf) ∧ k ≠ .refEq ∧
        isUnaryEvalK k = false := by
      cases k <;> first | (cases hBinary; done) | decide
    simp only [evalNode, hKind, if_neg hNot.1, if_neg hNot.2.1, if_neg hNot.2.2.1,
      hNot.2.2.2, Bool.false_eq_true, if_false, evalBinary, hA, hB, foldNode]

/-! ## The interpreter computes the fold -/

theorem threeWay_eq_cmpKernel {w : Nat} (a b : BitVec w) :
    threeWay (decide (a.toInt > b.toInt)) (decide (a.toInt < b.toInt)) = cmpKernel a b := by
  simp only [threeWay, cmpKernel, decide_eq_true_eq]

theorem test_eq_fold (p : Prop) [Decidable p] :
    (some (decide p)).map (fun taken => ArithResult.value (.intVal (if taken then 1 else 0))) =
      some (ofFolded ((some (if p then 1 else 0)).map .i)) := by
  by_cases hp : p
  · simp only [hp, decide_true, if_true, map_some]
    rfl
  · simp only [hp, decide_false, if_false, map_some]
    rfl

theorem division_eq_fold {w : Nat} (b q : BitVec w) (inject : BitVec w → ConstVal)
    (rest : Option ArithResult) :
    (match if b = 0 then some ArithResult.divByZero else some (.value (inject q).toValue) with
      | some r => some r
      | none => rest) =
      some (ofFolded ((if b = 0 then none else some q).map inject)) := by
  by_cases hb : b = 0
  · simp only [if_pos hb, map_none]
    rfl
  · simp only [if_neg hb, map_some]
    rfl

/-- The handler of an instruction other than a long shift computes what the fold of its
node yields, and raises where the fold is refused. -/
theorem outcome_eq_fold (hF : Ieee F) {reg : Nat → Value} (h : emitNode ins = some (k, srcs))
    (hTyped : OperandsTyped ins reg) (hShift : isLongShift ins.op = false) :
    outcome F ins reg = some (ofFolded (foldNode F k (srcs.map (Source.const reg)))) := by
  obtain ⟨hA, hB, hDst⟩ := hTyped
  unfold emitNode at h
  split at h
  all_goals
    rename_i hop
    cases h
  all_goals
    rw [hop] at hA hB hDst hShift
    simp only [Rbc.info, ne_eq, reduceCtorEq, not_false_eq_true, not_true_eq_false,
      forall_const, false_implies] at hA hB hDst
    simp only [outcome, arith, branchTaken, hop, foldNode, List.map, Source.const,
      constOfValue, evalBinOp, evalUnaryOp, foldIntBin, foldLongBin, hA, hB, hDst,
      wrapAdd32_eq, wrapSub32_eq, wrapMul32_eq, threeWay_eq_cmpKernel, and_char_mask,
      fpToInt64_int hF, fpToInt64_long hF, toInt32SatF_eq hF, toInt64SatF_eq hF]
  case h_4 | h_5 => exact division_eq_fold _ _ .i _
  case h_17 | h_18 => exact division_eq_fold _ _ .l _
  case h_20 | h_21 | h_22 => cases hShift
  case h_27 =>
    rw [map_some, if_pos trivial, setWidth_signExtend]
    rfl
  -- The conditional branches, and then the handlers that are the fold as they stand.
  case h_41 | h_42 | h_43 | h_44 | h_45 | h_46 | h_47 | h_48 | h_49 | h_50 | h_51 | h_52 =>
    exact test_eq_fold _
  all_goals rfl

/-- The emitting instructions share the last arm of the dispatch. -/
theorem exec_of_emitNode {E : Env} {m : Machine} {f : Frame} (h : emitNode ins = some (k, srcs)) :
    exec E m f ins =
      match arith E.host.ops ins f.reg with
      | some (.value v) => put m f ins v
      | some .divByZero => raise E m kClsArithmetic kMsgDivByZero
      | none => if branchTaken ins f.reg = some true then jump m f ins.immIdx else next m f := by
  unfold emitNode at h
  split at h
  all_goals
    rename_i hop
    cases h
  all_goals
    obtain ⟨op, dst, a, b, imm⟩ := ins
    cases hop
    rfl

/-- An emitting instruction is a conditional branch or has an arithmetic result. -/
theorem arith_of_emitNode (h : emitNode ins = some (k, srcs)) (F : FloatOps) (reg : Nat → Value) :
    (arith F ins reg).isSome = !hasEff (Rbc.info ins.op).effects .canBranch := by
  unfold emitNode at h
  split at h
  all_goals
    rename_i hop
    cases h
  all_goals
    simp only [arith, hop]
    first | rfl | (split <;> rfl)

theorem exec_eq_perform {E : Env} {f : Frame} {r : ArithResult} (h : emitNode ins = some (k, srcs))
    (hOut : outcome E.host.ops ins f.reg = some r) (m : Machine) :
    exec E m f ins = perform E m f ins r := by
  have hArith := arith_of_emitNode h E.host.ops f.reg
  rw [exec_of_emitNode h]
  unfold outcome at hOut
  cases hRes : arith E.host.ops ins f.reg with
  | some res =>
    rw [hRes] at hOut hArith
    have hBranch : hasEff (Rbc.info ins.op).effects .canBranch = false := by
      simpa using hArith
    cases hOut
    cases r with
    | value v => simp only [perform, hBranch, Bool.false_eq_true, if_false]
    | divByZero => rfl
  | none =>
    rw [hRes] at hOut hArith
    have hBranch : hasEff (Rbc.info ins.op).effects .canBranch = true := by
      simpa using hArith
    obtain ⟨taken, hTaken, rfl⟩ := map_eq_some_iff.mp hOut
    simp only [perform, hBranch, if_true, hTaken]
    cases taken with
    | true | false => rfl

theorem outcome_longShift {reg : Nat → Value} (hShift : isLongShift ins.op = true) :
    outcome F ins reg ≠ some .divByZero := by
  unfold isLongShift at hShift
  split at hShift
  case h_4 => cases hShift
  all_goals
    rename_i hop
    simp only [outcome, arith, hop, ne_eq, Option.some.injEq, reduceCtorEq, not_false_eq_true]

theorem fold_longShift {reg : Nat → Value} (h : emitNode ins = some (k, srcs))
    (hTyped : OperandsTyped ins reg) (hShift : isLongShift ins.op = true) :
    foldNode F k (srcs.map (Source.const reg)) = none := by
  obtain ⟨hA, hB, -⟩ := hTyped
  unfold isLongShift at hShift
  split at hShift
  case h_4 => cases hShift
  all_goals
    rename_i hop
    simp only [emitNode, hop, Option.some.injEq, Prod.mk.injEq] at h
    obtain ⟨rfl, rfl⟩ := h
    simp only [hop, Rbc.info, ne_eq, reduceCtorEq, not_false_eq_true, forall_const] at hA hB
    simp only [List.map, foldNode, Source.const, constOfValue, hA, hB, evalBinOp]

theorem ofFolded_eq_divByZero_iff {o : Option ConstVal} : ofFolded o = .divByZero ↔ o = none := by
  cases o with
  | none | some c => simp [ofFolded]

/-- Whatever is no constant after a fold of known inputs was refused. -/
theorem ofFold_ne_const_iff {o : Option ConstVal} : (∀ c, ofFold o ≠ .const c) ↔ o = none := by
  cases o with
  | none | some c => simp [ofFold]

/-- For every instruction that computes with `int`s or `long`s, over registers of the
types it reads: folding its node is exactly what the interpreter does, unless the
instruction shifts a `long`. -/
theorem fold_exact {E : Env} (hF : Ieee E.host.ops) {f : Frame} {ins : Ins} {k : NodeKind}
    {srcs : List Source} (h : emitNode ins = some (k, srcs)) (hTyped : OperandsTyped ins f.reg) :
    FoldsExactly E f ins k srcs ↔ isLongShift ins.op = false := by
  have hArity : (isUnaryEvalK k = true ∧ (srcs.map (Source.const f.reg)).length = 1) ∨
      (isBinaryEvalK k = true ∧ (srcs.map (Source.const f.reg)).length = 2) := by
    rcases emitNode_arity h with ⟨hUnary, a, rfl⟩ | ⟨hBinary, a, b, rfl⟩
    · exact Or.inl ⟨hUnary, rfl⟩
    · exact Or.inr ⟨hBinary, rfl⟩
  constructor
  · intro hExact
    by_contra hShift
    rw [Bool.not_eq_false] at hShift
    exact outcome_longShift hShift (hExact.refused.mp (fold_longShift h hTyped hShift))
  · intro hShift
    have hOut := outcome_eq_fold hF h hTyped hShift
    have hRefused : outcome E.host.ops ins f.reg = some .divByZero ↔
        foldNode E.host.ops k (srcs.map (Source.const f.reg)) = none := by
      rw [hOut, Option.some.injEq, ofFolded_eq_divByZero_iff]
    refine ⟨?_, hRefused.symm, ?_, ?_, fun m => exec_eq_perform h hOut m⟩
    · intro c hc
      rw [hOut, hc]
      rfl
    · intro g s n hKnown c hc
      rw [evalNode_eq_fold hKnown hArity] at hc
      rw [hOut]
      cases hFold : foldNode E.host.ops k (srcs.map (Source.const f.reg)) with
      | none =>
        rw [hFold] at hc
        cases hc
      | some c' =>
        rw [hFold] at hc
        cases hc
        rfl
    · intro g s n hKnown
      rw [evalNode_eq_fold hKnown hArity, ofFold_ne_const_iff, hRefused]

/-! ## Two constant divisions and a constant shift -/

/-- An empty program on a host with IEEE comparisons. -/
def sampleEnv : Env where
  program := { methods := [] }
  host := { ops := sampleOps, toCharsF := fun _ => "", toCharsD := fun _ => "" }

/-- A frame with two values in its first registers. -/
def sampleFrame (a b : Value) : Frame := { method := 0, regs := [a, b] }

/-- The instruction with result in register 0 and operands in registers 0 and 1. -/
def sampleIns (op : Op) : Ins := ⟨op, 0, 0, 1, 0⟩

theorem idiv_typed (a b : BitVec 32) :
    OperandsTyped (sampleIns .idiv) (sampleFrame (.intVal a) (.intVal b)).reg :=
  ⟨fun _ => rfl, fun _ => rfl, fun h => by cases h⟩

theorem lshl_typed (a : BitVec 64) (b : BitVec 32) :
    OperandsTyped (sampleIns .lshl) (sampleFrame (.longVal a) (.intVal b)).reg :=
  ⟨fun _ => rfl, fun _ => rfl, fun h => by cases h⟩

/-- The overflowing quotient folds to itself, and a division by zero is left alone. -/
theorem idiv_exact :
    (FoldsExactly sampleEnv (sampleFrame (.intVal (BitVec.intMin 32)) (.intVal (-1)))
        (sampleIns .idiv) .divI [.reg 0, .reg 1] ∧
      foldNode sampleOps .divI [.i (BitVec.intMin 32), .i (-1)] = some (.i (BitVec.intMin 32))) ∧
    FoldsExactly sampleEnv (sampleFrame (.intVal 7) (.intVal 0)) (sampleIns .idiv) .divI
        [.reg 0, .reg 1] ∧
      foldNode sampleOps .divI [.i 7, .i 0] = none :=
  ⟨⟨(fold_exact sampleOps_ieee rfl (idiv_typed _ _)).mpr rfl, by decide⟩,
    (fold_exact sampleOps_ieee rfl (idiv_typed _ _)).mpr rfl, by decide⟩

/-- `1L << 3` is 8 in the interpreter and is not folded. -/
theorem not_foldsExactly_lshl :
    OperandsTyped (sampleIns .lshl) (sampleFrame (.longVal 1) (.intVal 3)).reg ∧
      emitNode (sampleIns .lshl) = some (.shlL, [.reg 0, .reg 1]) ∧
      outcome sampleOps (sampleIns .lshl) (sampleFrame (.longVal 1) (.intVal 3)).reg =
        some (.value (.longVal 8)) ∧
      foldNode sampleOps .shlL [.l 1, .i 3] = none ∧
      ¬ FoldsExactly sampleEnv (sampleFrame (.longVal 1) (.intVal 3)) (sampleIns .lshl) .shlL
        [.reg 0, .reg 1] := by
  have hFold : foldNode sampleOps .shlL [.l 1, .i 3] = none := rfl
  refine ⟨lshl_typed 1 3, rfl, rfl, hFold, fun hExact => ?_⟩
  have hRaises := hExact.refused.mp hFold
  cases hRaises

end B2Compiler.Passes
