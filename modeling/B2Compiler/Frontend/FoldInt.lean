import Mathlib.Algebra.Order.Ring.Nat
import B2Compiler.Frontend.Expr
import B2Compiler.Interp.Value

/-!
# Folding integer constants

`foldInt` computes with 64 bits and goes back to 32 bits at some operators only.  An operation
the C++ standard leaves undefined is an outcome of its own.  Beside it stands what the value
should be: each operator on 32 bits.  The two agree exactly when no sum, product or negation
leaves the 64 bits, the least value is nowhere divided by -1, and the value as it is written
down, with sums, products and signs not wrapped, is one of 32 bits.
-/

namespace B2Compiler.Frontend

open Interp BitVec Bool

/-! ## The fold -/

/-- What a fold comes to. -/
inductive Fold where
  | undefined
  | no
  | yes (v : Int) (isBool : Bool)
  deriving DecidableEq, Repr

def inInt64 (v : Int) : Bool := decide (-2 ^ 63 ≤ v ∧ v < 2 ^ 63)

def inInt32 (v : Int) : Bool := decide (-2 ^ 31 ≤ v ∧ v < 2 ^ 31)

/-- A result of signed 64-bit arithmetic. -/
def wide (v : Int) : Fold := if inInt64 v then .yes v false else .undefined

/-- A result of 32-bit arithmetic. -/
def narrow (v : BitVec 32) : Fold := .yes v.toInt false

def truth (v : Bool) : Fold := .yes (if v then 1 else 0) true

/-- Division of two `int32_t` values; the quotient of the least value by -1 is none. -/
def foldDiv (ai bi : BitVec 32) : Fold :=
  if bi = 0 then .no
  else if ai = BitVec.intMin 32 ∧ bi = -1 then .undefined
  else narrow (BitVec.ofInt 32 (ai.toInt.tdiv bi.toInt))

def foldMod (ai bi : BitVec 32) : Fold :=
  if bi = 0 then .no
  else if ai = BitVec.intMin 32 ∧ bi = -1 then .undefined
  else narrow (BitVec.ofInt 32 (ai.toInt.tmod bi.toInt))

def foldPrefix (op : UnaryOp) (v : Int) (isBool : Bool) : Fold :=
  match op with
  | .plus => .yes v false
  | .minus => wide (-v)
  | .bitNot => narrow (~~~(BitVec.ofInt 32 v))
  | .logicalNot => if isBool then truth (v = 0) else .no
  | .preInc | .preDec => .no

def isLogical (op : BinaryOp) : Bool := op == .cand || op == .cor

/-- A logical operator takes booleans, every other one takes none. -/
def mixed (op : BinaryOp) (aBool bBool : Bool) : Bool :=
  if isLogical op then !aBool || !bBool else aBool || bBool

/-- Both operands are folded, and both are boolean or neither. -/
def foldBinary (op : BinaryOp) (a b : Int) : Fold :=
  let ai := BitVec.ofInt 32 a
  let bi := BitVec.ofInt 32 b
  let count := (bi &&& 31).toNat
  match op with
  | .add => wide (a + b)
  | .sub => wide (a - b)
  | .mul => wide (a * b)
  | .div => foldDiv ai bi
  | .mod => foldMod ai bi
  | .shl => narrow (ai <<< count)
  | .shr => narrow (ai.sshiftRight count)
  | .ushr => narrow (ai >>> count)
  | .and => narrow (ai &&& bi)
  | .or => narrow (ai ||| bi)
  | .xor => narrow (ai ^^^ bi)
  | .cand => truth (a ≠ 0 ∧ b ≠ 0)
  | .cor => truth (a ≠ 0 ∨ b ≠ 0)
  | .lt | .gt | .le | .ge | .eq | .ne => .no

def foldInt : Expr → Fold
  | .literal l =>
    match l.lit with
    | .int => .yes (l.intValue.setWidth 32).toInt false
    | .char => .yes l.intValue.toInt false
    | .boolean => truth (l.intValue ≠ 0)
    | _ => .no
  | .paren inner => foldInt inner
  | .prefixUnary op operand =>
    match foldInt operand with
    | .undefined => .undefined
    | .no => .no
    | .yes v isBool => foldPrefix op v isBool
  | .binary op lhs rhs =>
    match foldInt lhs, foldInt rhs with
    | .undefined, _ | _, .undefined => .undefined
    | .no, _ | _, .no => .no
    | .yes a aBool, .yes b bBool => if mixed op aBool bBool then .no else foldBinary op a b
  | .other _ => .no

/-- A constant converts to a narrower type when it is in its range. -/
def constantInRange (target : JK) (v : Int) : Bool :=
  match target with
  | .byte => decide (-128 ≤ v ∧ v ≤ 127)
  | .short => decide (-32768 ≤ v ∧ v ≤ 32767)
  | .char => decide (0 ≤ v ∧ v ≤ 65535)
  | .int => decide (-2147483648 ≤ v ∧ v ≤ 2147483647)
  | .bool => decide (v = 0 ∨ v = 1)
  | _ => false

def caseLabel (constant : Expr) : Except String (BitVec 32) :=
  match foldInt constant with
  | .yes v false =>
    if v < -2147483648 ∨ 2147483647 < v then
      .error ("case label is outside int range (expected: a value in " ++
        "[-2147483648, 2147483647])")
    else .ok (BitVec.ofInt 32 v)
  | _ =>
    .error ("case label must be a compile-time int constant, found a non-constant or non-int " ++
      "expression (expected: a constant like 1, 'a', or -2)")

/-! ## What the value should be -/

def prefix32 (op : UnaryOp) (v : BitVec 32) (isBool : Bool) : Option (BitVec 32 × Bool) :=
  match op with
  | .plus => some (v, false)
  | .minus => some (-v, false)
  | .bitNot => some (~~~v, false)
  | .logicalNot => if isBool then some (if v = 0 then 1 else 0, true) else none
  | .preInc | .preDec => none

def binary32 (op : BinaryOp) (a b : BitVec 32) : Option (BitVec 32 × Bool) :=
  match op with
  | .add => some (a + b, false)
  | .sub => some (a - b, false)
  | .mul => some (a * b, false)
  | .div => if b = 0 then none else some (divKernel a b, false)
  | .mod => if b = 0 then none else some (remKernel a b, false)
  | .shl => some (a <<< (b &&& 31).toNat, false)
  | .shr => some (a.sshiftRight (b &&& 31).toNat, false)
  | .ushr => some (a >>> (b &&& 31).toNat, false)
  | .and => some (a &&& b, false)
  | .or => some (a ||| b, false)
  | .xor => some (a ^^^ b, false)
  | .cand => some (if a ≠ 0 ∧ b ≠ 0 then 1 else 0, true)
  | .cor => some (if a ≠ 0 ∨ b ≠ 0 then 1 else 0, true)
  | .lt | .gt | .le | .ge | .eq | .ne => none

/-- The value of a constant with every operator on 32 bits, and whether it is a boolean. -/
def value32 : Expr → Option (BitVec 32 × Bool)
  | .literal l =>
    match l.lit with
    | .int | .char => some (l.intValue.setWidth 32, false)
    | .boolean => some (if l.intValue ≠ 0 then 1 else 0, true)
    | _ => none
  | .paren inner => value32 inner
  | .prefixUnary op operand => (value32 operand).bind fun v => prefix32 op v.1 v.2
  | .binary op lhs rhs =>
    (value32 lhs).bind fun a => (value32 rhs).bind fun b =>
      if mixed op a.2 b.2 then none else binary32 op a.1 b.1
  | .other _ => none

/-- A value of 32 bits as a number. -/
def valueInt (v : Option (BitVec 32 × Bool)) : Int := (v.map (·.1.toInt)).getD 0

/-- The value as it is written down: sums, products and signs are not wrapped, what is under
any other operator is. -/
def written : Expr → Int
  | .literal l => if l.lit = .char then l.intValue.toInt else valueInt (value32 (.literal l))
  | .paren inner => written inner
  | .prefixUnary .plus operand => written operand
  | .prefixUnary .minus operand => -written operand
  | .binary .add lhs rhs => written lhs + written rhs
  | .binary .sub lhs rhs => written lhs - written rhs
  | .binary .mul lhs rhs => written lhs * written rhs
  | e => valueInt (value32 e)

/-- The least value is divided by -1. -/
def overflowingDivision (lhs rhs : Expr) : Bool :=
  (value32 lhs).map (·.1) == some (intMin 32) && (value32 rhs).map (·.1) == some (-1)

/-- Two constants that are no booleans. -/
def numbers (lhs rhs : Expr) : Bool :=
  (value32 lhs).any (fun v => !v.2) && (value32 rhs).any (fun v => !v.2)

/-- The operator is defined for two numbers: a sum, difference or product keeps to 64 bits, and
no division overflows. -/
def operatorCalm (op : BinaryOp) (lhs rhs : Expr) : Bool :=
  match op with
  | .add => inInt64 (written lhs + written rhs)
  | .sub => inInt64 (written lhs - written rhs)
  | .mul => inInt64 (written lhs * written rhs)
  | .div | .mod => !overflowingDivision lhs rhs
  | _ => true

/-- Nothing in the expression is undefined: sums, products and negations keep to 64 bits, and
the least value is nowhere divided by -1. -/
def calm : Expr → Bool
  | .literal _ => true
  | .paren inner => calm inner
  | .prefixUnary op operand =>
    calm operand && (op != .minus || !(value32 operand).isSome || inInt64 (-written operand))
  | .binary op lhs rhs => calm lhs && calm rhs && (!numbers lhs rhs || operatorCalm op lhs rhs)
  | .other _ => true

/-! ## The fold is that value, written down -/

theorem ofInt_toInt_setWidth (v : BitVec 64) : BitVec.ofInt 32 v.toInt = v.setWidth 32 := by
  apply BitVec.eq_of_toInt_eq
  rw [toInt_ofInt, toInt_setWidth, toInt_eq_toNat_bmod]
  exact Int.bmod_bmod_of_dvd (by decide)

/-- The written value wraps to the value; that of a boolean is 0 or 1. -/
structure Wraps (n : Int) (w : BitVec 32) (isBool : Bool) : Prop where
  wraps : BitVec.ofInt 32 n = w
  truth : isBool = true → n = w.toInt ∧ (w = 0 ∨ w = 1)

theorem Wraps.toInt (w : BitVec 32) : Wraps w.toInt w false :=
  ⟨BitVec.ofInt_toInt, fun h => absurd h Bool.false_ne_true⟩

theorem Wraps.ofBool (p : Prop) [Decidable p] :
    Wraps (if p then 1 else 0 : BitVec 32).toInt (if p then 1 else 0) true := by
  refine ⟨BitVec.ofInt_toInt, fun _ => ⟨rfl, ?_⟩⟩
  by_cases h : p
  · exact .inr (if_pos h)
  · exact .inl (if_neg h)

variable {w a b : BitVec 32} {isBool aBool bBool : Bool} {lhs rhs e : Expr}

theorem Wraps.number {n : Int} (h : BitVec.ofInt 32 n = w) : Wraps n w false :=
  ⟨h, fun hBool => absurd hBool Bool.false_ne_true⟩

theorem wraps_literal {l : Literal} (h : value32 (.literal l) = some (w, isBool)) :
    Wraps (written (.literal l)) w isBool := by
  obtain ⟨lit, intValue, floatValue, stringValue⟩ := l
  cases lit <;> cases h
  · exact .toInt _
  · exact .number (ofInt_toInt_setWidth intValue)
  · exact .ofBool (intValue ≠ 0)

theorem wraps_prefix {op : UnaryOp} {operand : Expr}
    (ih : ∀ {w isBool}, value32 operand = some (w, isBool) → Wraps (written operand) w isBool)
    (h : value32 (.prefixUnary op operand) = some (w, isBool)) :
    Wraps (written (.prefixUnary op operand)) w isBool := by
  have hWritten : op ≠ .plus → op ≠ .minus → written (.prefixUnary op operand) = w.toInt := by
    intro hPlus hMinus
    have hOther : written (.prefixUnary op operand) =
        valueInt (value32 (.prefixUnary op operand)) := by
      cases op
      · exact absurd rfl hPlus
      · exact absurd rfl hMinus
      all_goals rfl
    rw [hOther, h]
    rfl
  obtain ⟨⟨v, vBool⟩, hValue, hPrefix⟩ := Option.bind_eq_some_iff.mp h
  have hOperand := (ih hValue).wraps
  cases op with
  | plus =>
    cases hPrefix
    exact .number hOperand
  | minus =>
    cases hPrefix
    apply Wraps.number
    show BitVec.ofInt 32 (-written operand) = -v
    rw [BitVec.ofInt_neg, hOperand]
  | bitNot =>
    rw [hWritten (by decide) (by decide)]
    cases hPrefix
    exact .toInt _
  | logicalNot =>
    rw [hWritten (by decide) (by decide)]
    cases vBool with
    | false => cases hPrefix
    | true =>
      cases hPrefix
      exact .ofBool (v = 0)
  | preInc | preDec => cases hPrefix

theorem wraps_binary {op : BinaryOp}
    (ihL : ∀ {w isBool}, value32 lhs = some (w, isBool) → Wraps (written lhs) w isBool)
    (ihR : ∀ {w isBool}, value32 rhs = some (w, isBool) → Wraps (written rhs) w isBool)
    (h : value32 (.binary op lhs rhs) = some (w, isBool)) :
    Wraps (written (.binary op lhs rhs)) w isBool := by
  have hWritten : op ≠ .add → op ≠ .sub → op ≠ .mul → written (.binary op lhs rhs) = w.toInt := by
    intro hAdd hSub hMul
    have hOther : written (.binary op lhs rhs) = valueInt (value32 (.binary op lhs rhs)) := by
      cases op
      case add => exact absurd rfl hAdd
      case sub => exact absurd rfl hSub
      case mul => exact absurd rfl hMul
      all_goals rfl
    rw [hOther, h]
    rfl
  obtain ⟨⟨a, aBool⟩, hL, hRest⟩ := Option.bind_eq_some_iff.mp h
  obtain ⟨⟨b, bBool⟩, hR, hBinary⟩ := Option.bind_eq_some_iff.mp hRest
  have hA := (ihL hL).wraps
  have hB := (ihR hR).wraps
  rcases hMixed : mixed op aBool bBool with _ | _
  · rw [hMixed] at hBinary
    cases op with
    | add =>
      cases hBinary
      apply Wraps.number
      show BitVec.ofInt 32 (written lhs + written rhs) = a + b
      rw [BitVec.ofInt_add, hA, hB]
    | sub =>
      cases hBinary
      apply Wraps.number
      show BitVec.ofInt 32 (written lhs - written rhs) = a - b
      rw [Int.sub_eq_add_neg, BitVec.ofInt_add, BitVec.ofInt_neg, hA, hB, sub_eq_add_neg]
    | mul =>
      cases hBinary
      apply Wraps.number
      show BitVec.ofInt 32 (written lhs * written rhs) = a * b
      rw [BitVec.ofInt_mul, hA, hB]
    | div | mod =>
      rw [hWritten (by decide) (by decide) (by decide)]
      by_cases hZero : b = 0
      · simp [binary32, hZero] at hBinary
      · simp only [binary32, hZero, if_false, false_eq_true, Option.some.injEq,
          Prod.mk.injEq] at hBinary
        rw [← hBinary.1, ← hBinary.2]
        exact .toInt _
    | shl | shr | ushr | and | or | xor =>
      rw [hWritten (by decide) (by decide) (by decide)]
      cases hBinary
      exact .toInt _
    | cand =>
      rw [hWritten (by decide) (by decide) (by decide)]
      cases hBinary
      exact .ofBool (a ≠ 0 ∧ b ≠ 0)
    | cor =>
      rw [hWritten (by decide) (by decide) (by decide)]
      cases hBinary
      exact .ofBool (a ≠ 0 ∨ b ≠ 0)
    | lt | gt | le | ge | eq | ne => cases hBinary
  · rw [hMixed] at hBinary
    cases hBinary

theorem wraps_written (h : value32 e = some (w, isBool)) : Wraps (written e) w isBool := by
  induction e generalizing w isBool with
  | literal l => exact wraps_literal h
  | paren inner ih => exact ih h
  | prefixUnary op operand ih => exact wraps_prefix ih h
  | binary op lhs rhs ihL ihR => exact wraps_binary ihL ihR h
  | other id => cases h

/-- What the fold of an expression comes to, by its value. -/
def foldOf (e : Expr) : Fold :=
  if calm e then
    match value32 e with
    | none => .no
    | some v => .yes (written e) v.2
  else .undefined

theorem foldOf_cases (e : Expr) : (calm e = false ∧ foldOf e = .undefined) ∨
      (calm e = true ∧ value32 e = none ∧ foldOf e = .no) ∨
        ∃ w isBool, calm e = true ∧ value32 e = some (w, isBool) ∧
          foldOf e = .yes (written e) isBool := by
  unfold foldOf
  rcases calm e with _ | _
  · exact .inl ⟨rfl, rfl⟩
  · rcases value32 e with _ | ⟨w, isBool⟩
    · exact .inr (.inl ⟨rfl, rfl, rfl⟩)
    · exact .inr (.inr ⟨w, isBool, rfl, rfl, rfl⟩)

theorem foldOf_of_calm (h : calm e = true) : foldOf e = match value32 e with
      | none => .no
      | some v => .yes (written e) v.2 := by
  rw [foldOf, if_pos h]

theorem foldOf_of_not_calm (h : calm e = false) : foldOf e = .undefined := by
  rw [foldOf, h]
  rfl

theorem foldInt_prefix {op : UnaryOp} {operand : Expr} (h : foldInt operand = foldOf operand) :
    foldInt (.prefixUnary op operand) = foldOf (.prefixUnary op operand) := by
  rw [foldInt, h]
  rcases foldOf_cases operand with ⟨hCalm, hFold⟩ | ⟨hCalm, hValue, hFold⟩ |
    ⟨w, isBool, hCalm, hValue, hFold⟩
  · rw [hFold, foldOf_of_not_calm]
    rw [calm, hCalm]
    rfl
  · have hWhole : calm (.prefixUnary op operand) = true := by
      rw [calm, hCalm, hValue]
      simp
    rw [hFold, foldOf_of_calm hWhole, value32, hValue]
    rfl
  · have hWraps := wraps_written hValue
    have hWhole : calm (.prefixUnary op operand) =
        (op != .minus || inInt64 (-written operand)) := by
      rw [calm, hCalm, hValue]
      simp
    have hNext : value32 (.prefixUnary op operand) = prefix32 op w isBool := by
      rw [value32, hValue]
      rfl
    rw [hFold]
    show foldPrefix op (written operand) isBool = _
    cases op with
    | plus =>
      rw [foldOf_of_calm hWhole, hNext]
      rfl
    | minus =>
      rw [foldPrefix, wide, foldOf, hWhole, hNext]
      rfl
    | bitNot =>
      have hWritten : written (.prefixUnary .bitNot operand) = (~~~w).toInt := by
        rw [written, hNext]
        · rfl
        all_goals simp
      rw [foldOf_of_calm hWhole, hNext, foldPrefix, hWraps.wraps, prefix32]
      dsimp only
      rw [hWritten]
      rfl
    | logicalNot =>
      rw [foldOf_of_calm hWhole, hNext]
      cases isBool with
      | false => rfl
      | true =>
        have hWritten : written (.prefixUnary .logicalNot operand) =
            (if w = 0 then 1 else 0 : BitVec 32).toInt := by
          rw [written, hNext]
          · rfl
          all_goals simp
        obtain ⟨hEq, hBit⟩ := hWraps.truth rfl
        rw [prefix32, foldPrefix]
        simp only [if_true]
        rw [hWritten, hEq]
        rcases hBit with hBit | hBit <;> rw [hBit] <;> rfl
    | preInc | preDec =>
      rw [foldOf_of_calm hWhole, hNext]
      rfl

theorem numbers_eq (hA : value32 lhs = some (a, aBool)) (hB : value32 rhs = some (b, bBool)) :
    numbers lhs rhs = (!aBool && !bBool) := by
  rw [numbers, hA, hB]
  rfl

theorem overflowingDivision_eq (hA : value32 lhs = some (a, aBool))
    (hB : value32 rhs = some (b, bBool)) :
    overflowingDivision lhs rhs = (a == intMin 32 && b == -1) := by
  rw [overflowingDivision, hA, hB]
  rfl

theorem calm_binary (op : BinaryOp) (hL : calm lhs = true) (hR : calm rhs = true) :
    calm (.binary op lhs rhs) = (!numbers lhs rhs || operatorCalm op lhs rhs) := by
  rw [calm, hL, hR]
  rfl

theorem foldDiv_eq (a b : BitVec 32) : foldDiv a b =
    if b = 0 then .no
    else if a = intMin 32 ∧ b = -1 then .undefined else narrow (divKernel a b) := by
  unfold foldDiv divKernel
  split_ifs <;> rfl

theorem foldMod_eq (a b : BitVec 32) : foldMod a b =
    if b = 0 then .no
    else if a = intMin 32 ∧ b = -1 then .undefined else narrow (remKernel a b) := by
  unfold foldMod remKernel
  split_ifs <;> rfl

theorem foldOf_narrow (hCalm : calm e = true) (hValue : value32 e = some (w, false))
    (hWritten : written e = w.toInt) : foldOf e = narrow w := by
  rw [foldOf_of_calm hCalm, hValue]
  dsimp only
  rw [hWritten]
  rfl

/-- A quotient or a remainder: none by zero, and undefined for the pair that overflows. -/
theorem quotient_eq (a b k : BitVec 32) :
    (if b = 0 then Fold.no else if a = intMin 32 ∧ b = -1 then .undefined else narrow k) =
      if (!(a == intMin 32 && b == -1)) = true then
        match (if b = 0 then none else some (k, false)) with
        | none => .no
        | some v => .yes (valueInt (if b = 0 then none else some (k, false))) v.2
      else .undefined := by
  by_cases hZero : b = 0
  · have hNo : (a == intMin 32 && b == -1) = false := by
      rw [hZero]
      exact and_false _
    rw [if_pos hZero, if_pos hZero, hNo]
    rfl
  · rw [if_neg hZero, if_neg hZero]
    by_cases hMin : a = intMin 32 ∧ b = -1
    · obtain ⟨rfl, rfl⟩ := hMin
      rfl
    · have hNo : (a == intMin 32 && b == -1) = false := by
        rw [eq_false_iff, ne_eq, and_eq_true, beq_iff_eq, beq_iff_eq]
        exact hMin
      rw [if_neg hMin, hNo]
      rfl

/-- An operator on two constants, both boolean or neither. -/
theorem foldBinary_eq {op : BinaryOp} (hL : calm lhs = true) (hR : calm rhs = true)
    (hA : value32 lhs = some (a, aBool)) (hB : value32 rhs = some (b, bBool))
    (hMixed : mixed op aBool bBool = false) :
    foldBinary op (written lhs) (written rhs) = foldOf (.binary op lhs rhs) := by
  have hValue : value32 (.binary op lhs rhs) = binary32 op a b := by
    rw [value32, hA, hB]
    show (if mixed op aBool bBool = true then none else binary32 op a b) = _
    rw [hMixed]
    rfl
  have hCalm := calm_binary op hL hR
  rw [numbers_eq hA hB] at hCalm
  have hDefined : operatorCalm op lhs rhs = true → calm (.binary op lhs rhs) = true := by
    intro hTrue
    rw [hCalm, hTrue, Bool.or_true]
  have hWritten : op = .div ∨ op = .mod ∨ op = .cand ∨ op = .cor →
      written (.binary op lhs rhs) = valueInt (binary32 op a b) := by
    rintro (rfl | rfl | rfl | rfl) <;> exact congrArg valueInt hValue
  have hWrapL := (wraps_written hA).wraps
  have hWrapR := (wraps_written hB).wraps
  cases op with
  | add | sub | mul =>
    obtain ⟨rfl, rfl⟩ := or_eq_false_iff.mp hMixed
    rw [foldOf, hCalm, hValue]
    rfl
  | div | mod =>
    obtain ⟨rfl, rfl⟩ := or_eq_false_iff.mp hMixed
    rw [foldBinary]
    first | rw [foldDiv_eq] | rw [foldMod_eq]
    rw [hWrapL, hWrapR, foldOf, hCalm, hValue, hWritten (by decide), operatorCalm,
      overflowingDivision_eq hA hB, binary32, quotient_eq]
    rfl
  | shl | shr | ushr | and | or | xor =>
    rw [foldOf_narrow (hDefined rfl) hValue (congrArg valueInt hValue), foldBinary, hWrapL, hWrapR]
  | cand | cor =>
    have hBools : aBool = true ∧ bBool = true := by
      cases aBool <;> cases bBool <;> first | exact ⟨rfl, rfl⟩ | cases hMixed
    obtain ⟨hEqL, hBitL⟩ := (wraps_written hA).truth hBools.1
    obtain ⟨hEqR, hBitR⟩ := (wraps_written hB).truth hBools.2
    rw [foldOf_of_calm (hDefined rfl), hWritten (by decide), hValue, foldBinary, hEqL, hEqR]
    rcases hBitL with hBitL | hBitL <;> rcases hBitR with hBitR | hBitR <;>
      rw [hBitL, hBitR] <;> rfl
  | lt | gt | le | ge | eq | ne =>
    rw [foldOf_of_calm (hDefined rfl), hValue]
    rfl

theorem foldInt_binary {op : BinaryOp} (hL : foldInt lhs = foldOf lhs)
    (hR : foldInt rhs = foldOf rhs) :
    foldInt (.binary op lhs rhs) = foldOf (.binary op lhs rhs) := by
  rw [foldInt, hL, hR]
  rcases foldOf_cases lhs with ⟨hCalmL, hFoldL⟩ | ⟨hCalmL, hA, hFoldL⟩ |
    ⟨a, aBool, hCalmL, hA, hFoldL⟩
  · have hWhole : calm (.binary op lhs rhs) = false := by
      rw [calm, hCalmL]
      rfl
    rw [hFoldL, foldOf_of_not_calm hWhole]
  · rw [hFoldL]
    rcases foldOf_cases rhs with ⟨hCalmR, hFoldR⟩ | hDefined
    · have hWhole : calm (.binary op lhs rhs) = false := by
        rw [calm, hCalmR, Bool.and_false]
        rfl
      rw [hFoldR, foldOf_of_not_calm hWhole]
    · have hCalmR : calm rhs = true := by
        rcases hDefined with ⟨h, -⟩ | ⟨-, -, h, -⟩ <;> exact h
      have hNumbers : numbers lhs rhs = false := by
        rw [numbers, hA]
        rfl
      have hWhole := calm_binary op hCalmL hCalmR
      rw [hNumbers] at hWhole
      rw [foldOf_of_calm hWhole, value32, hA]
      rcases hDefined with ⟨-, -, hFoldR⟩ | ⟨b, bBool, -, -, hFoldR⟩ <;> rw [hFoldR] <;> rfl
  · rw [hFoldL]
    rcases foldOf_cases rhs with ⟨hCalmR, hFoldR⟩ | ⟨hCalmR, hB, hFoldR⟩ |
      ⟨b, bBool, hCalmR, hB, hFoldR⟩
    · have hWhole : calm (.binary op lhs rhs) = false := by
        rw [calm, hCalmR, Bool.and_false]
        rfl
      rw [hFoldR, foldOf_of_not_calm hWhole]
    · have hNumbers : numbers lhs rhs = false := by
        rw [numbers, hB]
        exact and_false _
      have hWhole := calm_binary op hCalmL hCalmR
      rw [hNumbers] at hWhole
      rw [hFoldR, foldOf_of_calm hWhole, value32, hA, hB]
      rfl
    · rw [hFoldR]
      show (if mixed op aBool bBool then Fold.no
        else foldBinary op (written lhs) (written rhs)) = _
      by_cases hMixed : mixed op aBool bBool = true
      · have hWhole : calm (.binary op lhs rhs) = true := by
          rw [calm_binary op hCalmL hCalmR, numbers_eq hA hB]
          cases op <;> cases aBool <;> cases bBool <;> first | rfl | cases hMixed
        rw [if_pos hMixed, foldOf_of_calm hWhole, value32, hA, hB]
        show Fold.no = match (if mixed op aBool bBool = true then none else binary32 op a b) with
          | none => Fold.no
          | some v => Fold.yes (written (.binary op lhs rhs)) v.2
        rw [if_pos hMixed]
      · rw [if_neg hMixed]
        exact foldBinary_eq hCalmL hCalmR hA hB (eq_false_iff.mpr hMixed)

theorem foldInt_eq (e : Expr) : foldInt e = foldOf e := by
  induction e with
  | literal l =>
    obtain ⟨lit, intValue, floatValue, stringValue⟩ := l
    cases lit <;> try rfl
    by_cases hZero : intValue = 0#64
    all_goals simp [foldInt, foldOf, calm, value32, written, valueInt, truth, hZero]
  | paren inner ih => exact ih
  | prefixUnary op operand ih => exact foldInt_prefix ih
  | binary op lhs rhs ihL ihR => exact foldInt_binary ihL ihR
  | other id => rfl

end B2Compiler.Frontend
