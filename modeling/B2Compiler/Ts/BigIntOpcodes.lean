import B2Compiler.Ts.BigIntDivision

/-!
# Arithmetic opcodes on BigInts

The generic opcodes hand a pair with a BigInt in it to the kernel of the BigInt opcodes, which
knows one generic opcode only, the subtraction, and adds there.
-/

namespace B2Compiler.Ts.BigInt

open Lib

/-! ## The dispatch -/

inductive ArithOp where
  | add | sub | mul | div | mod | neg | inc | dec
  | bigIntAdd | bigIntSub | bigIntMul | bigIntDiv | bigIntMod | bigIntNeg
  deriving DecidableEq

inductive Raised where
  | typeError (message : String)
  | rangeError (message : String)

/-- A BigInt, or a value of another kind. -/
inductive Operand (ν : Type) where
  | bigint (x : BigInt)
  | other (v : ν)

/-- What an opcode leaves or raises; nothing after a write behind the limbs of a product. -/
abbrev Outcome (ν : Type) := Option (Except Raised (Operand ν))

variable {ν : Type}

def mixed : Raised := .typeError "Cannot mix BigInt and other types, use explicit conversions"

def bigintArith (l r : Operand ν) (op : ArithOp) : Outcome ν :=
  match l, r with
  | .bigint a, .bigint b =>
    match op with
    | .bigIntAdd | .sub => some (.ok (.bigint (add a b)))
    | .bigIntSub => some (.ok (.bigint (sub a b)))
    | .bigIntMul => (mul a b).map fun x => .ok (.bigint x)
    | .bigIntDiv =>
      if b.limbs = [] then some (.error (.rangeError "Division by zero"))
      else some (.ok (.bigint ((divMod a b).elim {} (·.1))))
    | .bigIntMod =>
      if b.limbs = [] then some (.error (.rangeError "Division by zero"))
      else some (.ok (.bigint ((divMod a b).elim {} (·.2))))
    | .bigIntNeg => some (.ok (.bigint (negate a)))
    | _ => some (.error (.typeError "internal: bad bigint opcode"))
  | _, _ => some (.error mixed)

section Dispatch

-- what the opcodes do where no operand is a BigInt
variable (numbers : ArithOp → ν → ν → Outcome ν)

def addValues (l r : Operand ν) : Outcome ν :=
  match l, r with
  | .bigint a, .bigint b => some (.ok (.bigint (add a b)))
  | .other v, .other w => numbers .add v w
  | _, _ => some (.error mixed)

def arithValues (l r : Operand ν) (op : ArithOp) : Outcome ν :=
  match l, r with
  | .other v, .other w => numbers op v w
  | _, _ => bigintArith l r op

/-- The handlers; those of one operand leave the second one alone. -/
def handler (op : ArithOp) (l r : Operand ν) : Outcome ν :=
  match op, l with
  | .add, _ => addValues numbers l r
  | .sub, _ | .mul, _ | .div, _ | .mod, _ => arithValues numbers l r op
  | .neg, .bigint a => some (.ok (.bigint (negate a)))
  | .inc, .bigint a => some (.ok (.bigint (add a (fromInt64 1))))
  | .dec, .bigint a => some (.ok (.bigint (sub a (fromInt64 1))))
  | .neg, .other v | .inc, .other v | .dec, .other v => numbers op v v
  | .bigIntNeg, _ => bigintArith l l .bigIntNeg
  | _, _ => bigintArith l r op

/-! ## What they stand for -/

namespace ArithOp

/-- The result in the integers; nothing for a zero divisor. -/
def exact (x y : Int) : ArithOp → Option Int
  | add | bigIntAdd => some (x + y)
  | sub | bigIntSub => some (x - y)
  | mul | bigIntMul => some (x * y)
  | div | bigIntDiv => if y = 0 then none else some (x.tdiv y)
  | mod | bigIntMod => if y = 0 then none else some (x.tmod y)
  | neg | bigIntNeg => some (-x)
  | inc => some (x + 1)
  | dec => some (x - 1)

def Unary (op : ArithOp) : Prop := op ∈ [neg, inc, dec, bigIntNeg]

def bigintForm : ArithOp → ArithOp
  | add => bigIntAdd
  | sub => bigIntSub
  | mul => bigIntMul
  | div => bigIntDiv
  | mod => bigIntMod
  | neg => bigIntNeg
  | op => op

end ArithOp

/-- The integer result, a range error for a zero divisor, a type error where one operand only
is a BigInt, and the same from both forms of the operator. -/
def Right (op : ArithOp) : Operand ν → Operand ν → Prop
  | .bigint a, .bigint b =>
    (match op.exact a.toInt b.toInt with
      | some z => ∃ x, handler numbers op (.bigint a) (.bigint b) = some (.ok (.bigint x)) ∧
          Represents x z
      | none => ∃ message, handler numbers op (.bigint a) (.bigint b) =
          some (.error (.rangeError message))) ∧
      handler numbers op (.bigint a) (.bigint b) =
        handler numbers op.bigintForm (.bigint a) (.bigint b)
  | .other _, .other _ => True
  | l, r => ¬ op.Unary → ∃ message, handler numbers op l r = some (.error (.typeError message))

/-- The operator reaches its kernel, and the kernel loses nothing: no borrow, and a divisor
that is zero, larger than the dividend or one limb.  The sum in the place of a difference is
right if nothing is subtracted, or if the borrow it loses makes up for twice the subtrahend. -/
def Lossless (op : ArithOp) (a b : BigInt) : Prop :=
  match op with
  | .add | .bigIntAdd => a.negative = b.negative ∨ NoBorrow a b
  | .inc => a.negative = (fromInt64 1).negative ∨ NoBorrow a (fromInt64 1)
  | .dec => a.negative ≠ (fromInt64 1).negative ∨ NoBorrow a (fromInt64 1)
  | .bigIntSub => a.negative ≠ b.negative ∨ NoBorrow a b
  | .sub => b.limbs = [] ∨ a.negative ≠ b.negative ∧ mag b.limbs ≤ mag a.limbs ∧
      mag (a.limbs.take b.limbs.length) < mag b.limbs ∧
      2 * mag b.limbs = (2 ^ 32) ^ b.limbs.length
  | .neg | .bigIntNeg | .bigIntMul => True
  | .mul | .div | .mod => False
  | .bigIntDiv | .bigIntMod =>
    b.limbs = [] ∨ mag a.limbs < mag b.limbs ∨ b.limbs.length = 1

def Meets (op : ArithOp) : Operand ν → Operand ν → Prop
  | .bigint a, .bigint b => Lossless op a b
  | _, _ => True

def Operand.Canonical : Operand ν → Prop
  | .bigint x => BigInt.Canonical x
  | .other _ => True

instance : (l : Operand ν) → Decidable l.Canonical
  | .bigint x => inferInstanceAs (Decidable (BigInt.Canonical x))
  | .other _ => .isTrue trivial

end Dispatch

/-! ## The kernels -/

variable {a b : BigInt}

theorem represents_add_iff (ha : Canonical a) (hb : Canonical b) :
    Represents (add a b) (a.toInt + b.toInt) ↔ a.negative = b.negative ∨ NoBorrow a b := by
  by_cases h : a.negative = b.negative
  · exact iff_of_true (add_same h) (.inl h)
  · rw [add_opposite h ha.trimmed hb.trimmed, or_iff_right h]

theorem represents_sub_iff (ha : Canonical a) (hb : Canonical b) :
    Represents (sub a b) (a.toInt - b.toInt) ↔ a.negative ≠ b.negative ∨ NoBorrow a b := by
  by_cases h : a.negative = b.negative
  · rw [sub_same h ha.trimmed hb.trimmed, or_iff_right (not_not_intro h)]
  · exact iff_of_true (sub_opposite h) (.inl h)

/-- Addition of opposite signs gives the difference only where a borrow is lost and makes up
for it. -/
theorem add_difference_iff (h : a.negative ≠ b.negative) (ha : Trimmed a.limbs)
    (hb : Trimmed b.limbs) (hPos : 0 < mag b.limbs) :
    Represents (add a b) (a.toInt - b.toInt) ↔ mag b.limbs ≤ mag a.limbs ∧
      mag (a.limbs.take b.limbs.length) < mag b.limbs ∧
      2 * mag b.limbs = (2 ^ 32) ^ b.limbs.length := by
  have hCmp : compareMag a b.flip = ((mag a.limbs : Int) - mag b.limbs).sign :=
    compareMag_eq ha hb
  have hDiff : a.toInt - b.toInt =
      if a.negative then -(mag a.limbs + mag b.limbs : Int) else mag a.limbs + mag b.limbs := by
    unfold toInt
    cases hNa : a.negative <;> cases hNb : b.negative <;> simp_all <;> omega
  rw [add, if_neg h, sub, if_neg (by simpa using flip_negative h), hCmp, hDiff]
  rcases Nat.lt_trichotomy (mag a.limbs) (mag b.limbs) with hLt | hEq | hGt
  · -- the sum has the sign of `b`
    rw [Int.sign_eq_neg_one_of_neg (by omega), if_neg (by decide), if_neg (by decide),
      if_neg (by decide), if_pos (by decide)]
    refine iff_of_false (fun hRep => ?_) (by omega)
    have hInt := hRep.2
    rw [toInt_canonicalize] at hInt
    unfold toInt at hInt
    cases hNa : a.negative <;> simp [hNa] at hInt <;> omega
  · have hLimbs : a.limbs = b.limbs := eq_of_mag_eq (by decide) ha hb hEq
    rw [hEq, Int.sub_self, hLimbs, List.take_length]
    refine iff_of_false (fun hRep => ?_) (by omega)
    have hInt : (0 : Int) = _ := hRep.2
    split at hInt <;> omega
  · obtain ⟨hSum, hOut⟩ := mag_subInPlace (length_le_of_mag_le hb hGt.le)
      (show (0 : BitVec 64).toNat ≤ 1 by decide)
    rw [Int.sign_eq_one_of_pos (by omega), if_neg (by decide), if_pos (by decide),
      if_pos (by decide), if_neg (by decide)]
    have hMag : Represents (canonicalize ⟨a.negative, (subInPlace a.limbs b.limbs 0).1⟩)
        (if a.negative then -(mag a.limbs + mag b.limbs : Int) else mag a.limbs + mag b.limbs) ↔
        mag (subInPlace a.limbs b.limbs 0).1 = mag a.limbs + mag b.limbs := by
      rw [Represents, toInt_canonicalize]
      unfold toInt
      cases a.negative <;> simp [canonical_canonicalize] <;> omega
    refine hMag.trans ?_
    rw [show (0 : BitVec 64).toNat = 0 from rfl, Nat.add_zero] at hSum hOut
    rw [hOut] at hSum
    split at hSum <;> omega

theorem sub_zero_limbs (ha : Canonical a) (hb : Canonical b) (h : b.limbs = []) :
    Represents (add a b) (a.toInt - b.toInt) ∧ Represents (sub a b) (a.toInt - b.toInt) := by
  have hNo : NoBorrow a b := by simp [NoBorrow, h, mag]
  have hZero : b.toInt = 0 := by simp [toInt, h, mag]
  have hAdd := (represents_add_iff ha hb).mpr (.inr hNo)
  rw [hZero, Int.add_zero] at hAdd
  refine ⟨?_, (represents_sub_iff ha hb).mpr (.inr hNo)⟩
  rwa [hZero, Int.sub_zero]

theorem Divides.trunc (h : Divides a b) (hb : b.toInt ≠ 0) :
    ∃ q r, divMod a b = some (q, r) ∧ Represents q (a.toInt.tdiv b.toInt) ∧
      Represents r (a.toInt.tmod b.toInt) := by
  obtain ⟨q, r, hRun, hq, hr, hSum, hLt, hSign⟩ := h
  have hBoth : a.toInt.tdiv b.toInt = q.toInt ∧ a.toInt.tmod b.toInt = r.toInt := by
    rw [Int.mul_comm] at hSum
    rcases Int.lt_or_le a.toInt 0 with hNeg | hPos
    · rw [Int.tdiv_tmod_unique' hNeg.le hb]
      omega
    · rw [Int.tdiv_tmod_unique hPos hb]
      omega
  exact ⟨q, r, hRun, ⟨hq, hBoth.1.symm⟩, ⟨hr, hBoth.2.symm⟩⟩

/-! ## The opcodes -/

variable (numbers : ArithOp → ν → ν → Outcome ν) {op : ArithOp}

theorem right_iff_represents {x : BigInt} {z : Int}
    (hRun : handler numbers op (.bigint a) (.bigint b) = some (.ok (.bigint x)))
    (hExact : op.exact a.toInt b.toInt = some z)
    (hForm : Represents x z →
      handler numbers op.bigintForm (.bigint a) (.bigint b) = some (.ok (.bigint x))) :
    Right numbers op (.bigint a) (.bigint b) ↔ Represents x z := by
  simp only [Right, hExact, hRun]
  constructor
  · rintro ⟨⟨y, hy, hRep⟩, -⟩
    cases hy
    exact hRep
  · intro hRep
    exact ⟨⟨x, rfl, hRep⟩, (hForm hRep).symm⟩

theorem right_division (hOp : op = .bigIntDiv ∨ op = .bigIntMod) (ha : Canonical a)
    (hb : Canonical b) (h : b.limbs = [] ∨ mag a.limbs < mag b.limbs ∨ b.limbs.length = 1) :
    Right numbers op (.bigint a) (.bigint b) := by
  by_cases hNil : b.limbs = []
  · have hZero : b.toInt = 0 := by simp [toInt, hNil, mag]
    rcases hOp with rfl | rfl <;>
      simp [Right, ArithOp.exact, hZero, handler, bigintArith, hNil, ArithOp.bigintForm]
  have hb0 : b.toInt ≠ 0 := by
    intro hZero
    have hMag := natAbs_toInt b
    rw [hZero] at hMag
    exact hNil (eq_nil_of_mag_eq_zero (by decide) hb.trimmed hMag.symm)
  have hDivides : Divides a b := by
    by_cases hLt : mag a.limbs < mag b.limbs
    · exact divides_of_mag_lt ha hb hLt
    · exact divides_of_one_limb ha hb ((h.resolve_left hNil).resolve_left hLt)
        (Nat.le_of_not_lt hLt)
  obtain ⟨q, r, hRun, hq, hr⟩ := hDivides.trunc hb0
  rcases hOp with rfl | rfl
  · have hExact : ArithOp.bigIntDiv.exact a.toInt b.toInt = some _ := if_neg hb0
    refine (right_iff_represents numbers ?_ hExact ?_).mpr hq <;>
      simp [handler, bigintArith, hNil, hRun, ArithOp.bigintForm]
  · have hExact : ArithOp.bigIntMod.exact a.toInt b.toInt = some _ := if_neg hb0
    refine (right_iff_represents numbers ?_ hExact ?_).mpr hr <;>
      simp [handler, bigintArith, hNil, hRun, ArithOp.bigintForm]

/-- The generic product, quotient and remainder of BigInts end in the default case. -/
theorem not_right_generic (hOp : op = .mul ∨ op = .div ∨ op = .mod) :
    ¬ Right numbers op (.bigint a) (.bigint b) := by
  intro h
  have hRun : handler numbers op (.bigint a) (.bigint b) =
      some (.error (.typeError "internal: bad bigint opcode")) := by
    rcases hOp with rfl | rfl | rfl <;> rfl
  have hLeft := h.1
  rw [hRun] at hLeft
  split at hLeft
  · obtain ⟨x, hEq, -⟩ := hLeft
    cases hEq
  · obtain ⟨message, hEq⟩ := hLeft
    cases hEq

theorem right_iff_lossless (ha : Canonical a) (hb : Canonical b)
    (hOp : op ≠ .bigIntDiv ∧ op ≠ .bigIntMod) :
    Right numbers op (.bigint a) (.bigint b) ↔ Lossless op a b := by
  have hOne : Canonical (fromInt64 1) := by decide
  have hToInt : (fromInt64 1).toInt = 1 := by decide
  cases op with
  | bigIntDiv | bigIntMod => simp at hOp
  | mul | div | mod => exact iff_of_false (not_right_generic numbers (by simp)) id
  | neg | bigIntNeg =>
    exact iff_of_true ((right_iff_represents numbers rfl rfl fun _ => rfl).mpr
      (represents_negate a)) trivial
  | add | bigIntAdd =>
    exact (right_iff_represents numbers rfl rfl fun _ => rfl).trans (represents_add_iff ha hb)
  | bigIntSub =>
    exact (right_iff_represents numbers rfl rfl fun _ => rfl).trans (represents_sub_iff ha hb)
  | inc =>
    have h := represents_add_iff ha hOne
    rw [hToInt] at h
    exact (right_iff_represents numbers rfl rfl fun _ => rfl).trans h
  | dec =>
    have h := represents_sub_iff ha hOne
    rw [hToInt] at h
    exact (right_iff_represents numbers rfl rfl fun _ => rfl).trans h
  | bigIntMul =>
    obtain ⟨x, hRun, hRep⟩ := mul_eq a b
    have hHandler : handler numbers .bigIntMul (.bigint a) (.bigint b) = some (.ok (.bigint x)) := by
      simp [handler, bigintArith, hRun]
    exact iff_of_true ((right_iff_represents numbers hHandler rfl fun _ => hHandler).mpr hRep)
      trivial
  | sub =>
    by_cases hNil : b.limbs = []
    · obtain ⟨hAdd, hSub⟩ := sub_zero_limbs ha hb hNil
      refine iff_of_true ((right_iff_represents numbers rfl rfl fun _ => ?_).mpr hAdd) (.inl hNil)
      rw [hAdd.unique hSub]
      rfl
    · have hPos : 0 < mag b.limbs := Nat.pos_of_ne_zero fun hZero =>
        hNil (eq_nil_of_mag_eq_zero (by decide) hb.trimmed hZero)
      by_cases hSign : a.negative = b.negative
      · have hNot : ¬ Represents (add a b) (a.toInt - b.toInt) := by
          intro hRep
          have hSum := (add_same hSign).2.symm.trans hRep.2
          have hMag := natAbs_toInt b
          omega
        refine (right_iff_represents numbers rfl rfl fun h => absurd h hNot).trans ?_
        exact iff_of_false hNot fun h => h.elim hNil fun h => h.1 hSign
      · refine (right_iff_represents numbers rfl rfl fun hRep => ?_).trans ?_
        · rw [hRep.unique (sub_opposite hSign)]
          rfl
        · refine (add_difference_iff hSign ha.trimmed hb.trimmed hPos).trans ?_
          simp [Lossless, hNil, hSign]

/-- An opcode is right where it reaches its kernel and nothing is lost there, and only there
but for the long division, whose errors can cancel out. -/
theorem opcodes_right (op : ArithOp) (l r : Operand ν) (hl : l.Canonical) (hr : r.Canonical) :
    (Meets op l r → Right numbers op l r) ∧
      (op ≠ .bigIntDiv ∧ op ≠ .bigIntMod → Right numbers op l r → Meets op l r) := by
  cases l with
  | bigint a =>
    cases r with
    | bigint b =>
      refine ⟨fun h => ?_, fun hOp => (right_iff_lossless numbers hl hr hOp).mp⟩
      by_cases hOp : op = .bigIntDiv ∨ op = .bigIntMod
      · refine right_division numbers hOp hl hr ?_
        rcases hOp with rfl | rfl <;> exact h
      · exact (right_iff_lossless numbers hl hr (not_or.mp hOp)).mpr h
    | other w =>
      refine ⟨fun _ hOp => ?_, fun _ _ => trivial⟩
      cases op <;> first | exact ⟨_, rfl⟩ | simp [ArithOp.Unary] at hOp
  | other v =>
    refine ⟨fun _ => ?_, fun _ _ => by cases r <;> trivial⟩
    cases r with
    | bigint b =>
      intro hOp
      cases op <;> first | exact ⟨_, rfl⟩ | simp [ArithOp.Unary] at hOp
    | other w => trivial

theorem opcodes_right_product :
    Right (fun _ (v : Empty) => nomatch v) .bigIntMul (.bigint ⟨true, [7]⟩)
      (.bigint ⟨false, [0, 9]⟩) :=
  (opcodes_right _ .bigIntMul _ _ (by decide) (by decide)).1 trivial

/-- `5n - 3n` is `8n`. -/
theorem sub_adds : ¬ ∀ (numbers : ArithOp → Empty → Empty → Outcome Empty) (op : ArithOp)
      (l r : Operand Empty), l.Canonical → r.Canonical → Right numbers op l r := by
  intro h
  have hRight := h (fun _ v => nomatch v) .sub (.bigint ⟨false, [5]⟩) (.bigint ⟨false, [3]⟩)
    (by decide) (by decide)
  have hLossless :=
    (right_iff_lossless _ (by decide) (by decide) (by decide)).mp hRight
  simp [Lossless] at hLossless

end B2Compiler.Ts.BigInt
