import B2Compiler.Lib.Limbs

/-!
# BigInt addition and order

A BigInt is a sign and a magnitude in 32-bit limbs, the low limb first; zero has no limbs
and no sign.  Addition of opposite signs is subtraction of the negated operand, and
subtraction of opposite signs is addition, so the two call each other once at most.

`subInPlace` runs over the limbs of the shorter operand only, and `sub` drops the borrow
that comes out of them.  `bigint_exact` says when nothing is lost by that.
-/

namespace B2Compiler.Ts

open Lib List

/-! ## The arithmetic of the source -/

/-- Sign and limbs. -/
structure BigInt where
  negative : Bool := false
  limbs : List (BitVec 32) := []
  deriving DecidableEq, Repr

namespace BigInt

def sign (x : BigInt) : Int :=
  if x.limbs = [] then 0 else if x.negative then -1 else 1

/-- Strips zero limbs at the end; zero loses its sign. -/
def canonicalize (x : BigInt) : BigInt where
  negative := x.negative && !(trim x.limbs).isEmpty
  limbs := trim x.limbs

/-- The other sign, also for zero. -/
def flip (x : BigInt) : BigInt := { x with negative := !x.negative }

/-- The first difference of two lists of one length decides. -/
def compareDown : List (BitVec 32) → List (BitVec 32) → Int
  | x :: xs, y :: ys => if x ≠ y then if x < y then -1 else 1 else compareDown xs ys
  | _, _ => 0

def compareMag (a b : BigInt) : Int :=
  if a.limbs.length ≠ b.limbs.length then
    if a.limbs.length < b.limbs.length then -1 else 1
  else compareDown a.limbs.reverse b.limbs.reverse

def compare (a b : BigInt) : Int :=
  if a.sign ≠ b.sign then if a.sign < b.sign then -1 else 1
  else
    let m := compareMag a b
    if a.negative then -m else m

def negate (a : BigInt) : BigInt := canonicalize a.flip

/-- The loop over the limbs of the longer operand, with the carry and the limb it ends
in. -/
def addLoop : List (BitVec 32) → List (BitVec 32) → BitVec 64 → List (BitVec 32)
  | [], _, carry => if carry ≠ 0 then [carry.setWidth 32] else []
  | x :: big, small, carry =>
    let cur := x.setWidth 64 + carry + (small.headD 0).setWidth 64
    (cur &&& 0xFFFFFFFF).setWidth 32 :: addLoop big small.tail (cur >>> 32)

/-- `a -= b` over the limbs of `b`, with the borrow that comes out; the limbs of `a` above
them stay. -/
def subInPlace : List (BitVec 32) → List (BitVec 32) → BitVec 64 → List (BitVec 32) × BitVec 64
  | x :: a, y :: b, borrow =>
    let cur := x.setWidth 64 - y.setWidth 64 - borrow
    let (rest, out) := subInPlace a b (if cur.slt 0 then 1 else 0)
    ((cur &&& 0xFFFFFFFF).setWidth 32 :: rest, out)
  | a, _, borrow => (a, borrow)

mutual

def add (a b : BigInt) : BigInt :=
  if a.negative = b.negative then
    let big := if b.limbs.length ≤ a.limbs.length then a.limbs else b.limbs
    let small := if b.limbs.length ≤ a.limbs.length then b.limbs else a.limbs
    canonicalize ⟨a.negative, addLoop big small 0⟩
  else sub a b.flip
termination_by if a.negative = b.negative then 0 else 1
decreasing_by
  rename_i h
  rw [if_neg h, if_pos (by cases ha : a.negative <;> cases hb : b.negative <;> simp_all [flip])]
  exact Nat.one_pos

def sub (a b : BigInt) : BigInt :=
  if a.negative ≠ b.negative then add a b.flip
  else
    let cmp := compareMag a b
    if cmp = 0 then {}
    else
      let big := if 0 ≤ cmp then a.limbs else b.limbs
      let small := if 0 ≤ cmp then b.limbs else a.limbs
      canonicalize ⟨if cmp < 0 then !a.negative else a.negative, (subInPlace big small 0).1⟩
termination_by if a.negative = b.negative then 0 else 1
decreasing_by
  rename_i h
  rw [if_neg h, if_pos (by cases ha : a.negative <;> cases hb : b.negative <;> simp_all [flip])]
  exact Nat.one_pos

end

/-! ## The integers they stand for -/

/-- The integer a BigInt denotes. -/
def toInt (x : BigInt) : Int := if x.negative then -(mag x.limbs : Int) else mag x.limbs

/-- No zero limb at the end, and no sign on zero. -/
structure Canonical (x : BigInt) : Prop where
  trimmed : Trimmed x.limbs
  unsigned : x.limbs = [] → x.negative = false

instance (x : BigInt) : Decidable (Canonical x) :=
  decidable_of_iff (Trimmed x.limbs ∧ (x.limbs = [] → x.negative = false))
    ⟨fun h => ⟨h.1, h.2⟩, fun h => ⟨h.trimmed, h.unsigned⟩⟩

/-- The canonical representation of an integer. -/
def ofInt (z : Int) : BigInt where
  negative := decide (z < 0)
  limbs := (Nat.digits (2 ^ 32) z.natAbs).map (BitVec.ofNat 32)

/-- `x` is the canonical representation of `z`. -/
def Represents (x : BigInt) (z : Int) : Prop := Canonical x ∧ x.toInt = z

/-- The smaller magnitude fits into as many low limbs of the larger one as it has. -/
def NoBorrow (a b : BigInt) : Prop :=
  if mag b.limbs ≤ mag a.limbs then mag b.limbs ≤ mag (a.limbs.take b.limbs.length)
  else mag a.limbs ≤ mag (b.limbs.take a.limbs.length)

instance (a b : BigInt) : Decidable (NoBorrow a b) := by
  unfold NoBorrow
  infer_instance

/-- What addition, subtraction, negation and order do on two operands as they should. -/
structure Exact (a b : BigInt) : Prop where
  add : Represents (add a b) (a.toInt + b.toInt)
  sub : Represents (sub a b) (a.toInt - b.toInt)
  negate : Represents (negate a) (-a.toInt)
  compare : compare a b = (a.toInt - b.toInt).sign
  cancel : BigInt.sub (BigInt.add a b) b = a
  antisymm : BigInt.sub a b = BigInt.negate (BigInt.sub b a)

/-! ## Canonical representations -/

theorem mag_canonicalize (x : BigInt) : mag (canonicalize x).limbs = mag x.limbs :=
  mag_trim x.limbs

theorem canonical_canonicalize (x : BigInt) : Canonical (canonicalize x) := by
  constructor
  · exact trimmed_trim x.limbs
  · intro h
    have hTrim : trim x.limbs = [] := h
    simp [canonicalize, hTrim]

theorem toInt_canonicalize (x : BigInt) : (canonicalize x).toInt = x.toInt := by
  have hMag := mag_canonicalize x
  by_cases hNil : trim x.limbs = []
  · have hZero : mag x.limbs = 0 := by
      rw [← hMag]
      show mag (trim x.limbs) = 0
      rw [hNil]
      rfl
    have hZero' : mag (canonicalize x).limbs = 0 := hMag.trans hZero
    simp [toInt, hZero, hZero']
  · have hSign : (canonicalize x).negative = x.negative := by
      simp [canonicalize, List.isEmpty_iff, hNil]
    rw [toInt, toInt, hSign, hMag]

variable {x a b : BigInt}

theorem represents_canonicalize {z : Int} (h : x.toInt = z) : Represents (canonicalize x) z :=
  ⟨canonical_canonicalize x, (toInt_canonicalize x).trans h⟩

theorem Canonical.eq_zero (h : Canonical x) (hMag : mag x.limbs = 0) : x = {} := by
  have hNil := eq_nil_of_mag_eq_zero (by decide) h.trimmed hMag
  have hSign := h.unsigned hNil
  obtain ⟨negative, limbs⟩ := x
  cases hNil
  cases hSign
  rfl

theorem natAbs_toInt (x : BigInt) : x.toInt.natAbs = mag x.limbs := by
  unfold toInt
  split <;> omega

/-- An integer has one canonical representation. -/
theorem Canonical.eq_of_toInt {y : BigInt} (hx : Canonical x) (hy : Canonical y)
    (h : x.toInt = y.toInt) : x = y := by
  have hMag : mag x.limbs = mag y.limbs := by
    rw [← natAbs_toInt, ← natAbs_toInt, h]
  rcases Nat.eq_zero_or_pos (mag x.limbs) with hZero | hPos
  · rw [hx.eq_zero hZero, hy.eq_zero (hMag ▸ hZero)]
  have hLimbs := eq_of_mag_eq (by decide) hx.trimmed hy.trimmed hMag
  have hSign : x.negative = y.negative := by
    unfold toInt at h
    cases hNx : x.negative <;> cases hNy : y.negative <;> simp only [hNx, hNy] at h <;>
      first
        | rfl
        | (simp at h; omega)
  cases x
  cases y
  simp_all

theorem Represents.unique {y : BigInt} {z : Int} (hx : Represents x z) (hy : Represents y z) :
    x = y :=
  hx.1.eq_of_toInt hy.1 (hx.2.trans hy.2.symm)

theorem represents_ofInt (z : Int) : Represents (ofInt z) z := by
  have hDigits : (ofInt z).limbs.map BitVec.toNat = Nat.digits (2 ^ 32) z.natAbs := by
    show ((Nat.digits (2 ^ 32) z.natAbs).map (BitVec.ofNat 32)).map BitVec.toNat = _
    rw [map_map]
    conv => rhs; rw [← map_id (Nat.digits (2 ^ 32) z.natAbs)]
    apply map_congr_left
    intro d hd
    exact Nat.mod_eq_of_lt (Nat.digits_lt_base (by decide) hd)
  have hMag : mag (ofInt z).limbs = z.natAbs := by
    rw [mag_eq_ofDigits, hDigits, Nat.ofDigits_digits]
  refine ⟨⟨?_, ?_⟩, ?_⟩
  · intro hLast
    have hLast' : (Nat.digits (2 ^ 32) z.natAbs).getLast? = some 0 := by
      rw [← hDigits, getLast?_map, hLast]
      rfl
    have hNe : Nat.digits (2 ^ 32) z.natAbs ≠ [] := by
      intro hNil
      rw [hNil] at hLast'
      cases hLast'
    rw [getLast?_eq_some_getLast hNe] at hLast'
    have hPos : z.natAbs ≠ 0 := by
      intro hZero
      rw [hZero] at hNe
      exact hNe (Nat.digits_zero _)
    exact Nat.getLast_digit_ne_zero _ hPos (Option.some.inj hLast')
  · intro hNil
    rw [hNil] at hMag
    have hZero : z = 0 := Int.natAbs_eq_zero.mp hMag.symm
    rw [hZero]
    rfl
  · unfold toInt
    rw [hMag]
    by_cases hSign : z < 0
    · rw [if_pos (show (ofInt z).negative = true from decide_eq_true hSign)]
      omega
    · rw [if_neg (show ¬(ofInt z).negative = true by simpa [ofInt] using hSign)]
      omega

theorem low_limb (cur : BitVec 64) :
    ((cur &&& 0xFFFFFFFF).setWidth 32).toNat = cur.toNat % 2 ^ 32 := by
  rw [BitVec.toNat_setWidth, BitVec.toNat_and]
  show (cur.toNat &&& (2 ^ 32 - 1)) % 2 ^ 32 = _
  rw [Nat.and_two_pow_sub_one_eq_mod, Nat.mod_mod]

theorem add_limb (x y : BitVec 32) {carry : BitVec 64} (h : carry.toNat ≤ 1) :
    let cur := x.setWidth 64 + carry + y.setWidth 64
    ((cur &&& 0xFFFFFFFF).setWidth 32).toNat + 2 ^ 32 * (cur >>> 32).toNat =
      x.toNat + y.toNat + carry.toNat ∧ (cur >>> 32).toNat ≤ 1 := by
  intro cur
  have hx := x.isLt
  have hy := y.isLt
  have hCur : cur.toNat = x.toNat + carry.toNat + y.toNat := by
    simp only [cur, BitVec.toNat_add, BitVec.toNat_setWidth]
    omega
  rw [low_limb, BitVec.toNat_ushiftRight, Nat.shiftRight_eq_div_pow, hCur]
  omega

theorem sub_limb (x y : BitVec 32) {borrow : BitVec 64} (h : borrow.toNat ≤ 1) :
    let cur := x.setWidth 64 - y.setWidth 64 - borrow
    let next : BitVec 64 := if cur.slt 0 then 1 else 0
    ((cur &&& 0xFFFFFFFF).setWidth 32).toNat + y.toNat + borrow.toNat =
      x.toNat + 2 ^ 32 * next.toNat ∧ next.toNat ≤ 1 := by
  intro cur next
  have hx := x.isLt
  have hy := y.isLt
  have hCur : cur.toNat =
      (2 ^ 64 - borrow.toNat + (2 ^ 64 - y.toNat + x.toNat) % 2 ^ 64) % 2 ^ 64 := by
    simp only [cur, BitVec.toNat_sub, BitVec.toNat_setWidth]
    omega
  have hNext : next.toNat = if x.toNat < y.toNat + borrow.toNat then 1 else 0 := by
    have hSlt : cur.slt 0 = decide (x.toNat < y.toNat + borrow.toNat) := by
      rw [show cur.slt 0 = cur.msb from BitVec.slt_zero_eq_msb, BitVec.msb_eq_decide]
      congr 1
      rw [hCur, eq_iff_iff]
      omega
    simp only [next, hSlt, decide_eq_true_eq]
    split <;> rfl
  rw [low_limb, hNext, hCur]
  split <;> omega

theorem mag_addLoop {big small : List (BitVec 32)} (hLen : small.length ≤ big.length)
    {carry : BitVec 64} (h : carry.toNat ≤ 1) :
    mag (addLoop big small carry) = mag big + mag small + carry.toNat := by
  induction big generalizing small carry with
  | nil =>
    have hSmall : small = [] := length_eq_zero_iff.mp (Nat.le_zero.mp hLen)
    subst hSmall
    unfold addLoop
    by_cases hZero : carry = 0
    · rw [if_neg (by simpa using hZero), hZero]
      rfl
    · rw [if_pos hZero, mag, mag, mag, BitVec.toNat_setWidth]
      omega
  | cons x big ih =>
    obtain ⟨hSum, hNext⟩ := add_limb x (small.headD 0) h
    have hTail : small.tail.length ≤ big.length := by
      rw [length_tail]
      rw [length_cons] at hLen
      omega
    have hSmall : mag small = (small.headD 0).toNat + 2 ^ 32 * mag small.tail := by
      cases small <;> rfl
    rw [addLoop, mag, ih hTail hNext, mag, hSmall]
    rw [Nat.mul_add, Nat.mul_add]
    omega

/-- What the subtraction loop conserves: the result and what was taken off make up the
minuend, with a borrow from above the subtrahend's limbs. -/
theorem mag_subInPlace {a b : List (BitVec 32)} (hLen : b.length ≤ a.length)
    {borrow : BitVec 64} (h : borrow.toNat ≤ 1) :
    mag (subInPlace a b borrow).1 + mag b + borrow.toNat =
        mag a + (2 ^ 32) ^ b.length * (subInPlace a b borrow).2.toNat ∧
      ((subInPlace a b borrow).2.toNat =
        if mag (a.take b.length) < mag b + borrow.toNat then 1 else 0) := by
  induction b generalizing a borrow with
  | nil =>
    have hUnfold : subInPlace a [] borrow = (a, borrow) := by
      cases a <;> rfl
    rw [hUnfold]
    show mag a + 0 + borrow.toNat = mag a + 1 * borrow.toNat ∧
      borrow.toNat = if 0 < 0 + borrow.toNat then 1 else 0
    constructor
    · omega
    · split <;> omega
  | cons y b ih =>
    cases a with
    | nil => exact absurd hLen (Nat.not_succ_le_zero _)
    | cons x a =>
      obtain ⟨hLimb, hNext⟩ := sub_limb x y h
      obtain ⟨hRest, hOut⟩ := ih (Nat.le_of_succ_le_succ hLen) hNext
      rw [subInPlace]
      dsimp only
      generalize hCur : x.setWidth 64 - y.setWidth 64 - borrow = cur at *
      generalize (if cur.slt 0 = true then (1 : BitVec 64) else 0) = next at *
      rw [length_cons, Nat.pow_succ', take_succ_cons, mag, mag, mag, mag]
      constructor
      · rw [Nat.mul_assoc]
        omega
      · rw [hOut]
        have hLow := ((cur &&& 0xFFFFFFFF).setWidth 32).isLt
        by_cases hLt : mag (a.take b.length) < mag b + next.toNat
        · rw [if_pos hLt, if_pos (by omega)]
        · rw [if_neg hLt, if_neg (by omega)]

theorem compareDown_eq (xs ys : List (BitVec 32)) (hLen : xs.length = ys.length) :
    compareDown xs ys = ((mag xs.reverse : Int) - mag ys.reverse).sign := by
  induction xs generalizing ys with
  | nil =>
    have hNil : ys = [] := length_eq_zero_iff.mp hLen.symm
    rw [hNil]
    rfl
  | cons x xs ih =>
    cases ys with
    | nil => cases hLen
    | cons y ys =>
      have hRest : xs.length = ys.length := Nat.succ.inj hLen
      have hX := mag_lt xs.reverse
      have hY := mag_lt ys.reverse
      rw [length_reverse] at hX hY
      rw [← hRest] at hY
      rw [reverse_cons, reverse_cons, mag_append, mag_append, length_reverse,
        length_reverse, ← hRest, compareDown]
      simp only [mag, Nat.mul_zero, Nat.add_zero]
      generalize (2 ^ 32) ^ xs.length = base at *
      by_cases hEq : x = y
      · subst hEq
        rw [if_neg (by simp), ih ys hRest]
        congr 1
        push_cast
        ring
      · rw [if_pos hEq]
        have hNe : x.toNat ≠ y.toNat := fun h => hEq (BitVec.eq_of_toNat_eq h)
        by_cases hLt : x < y
        · rw [if_pos hLt]
          symm
          apply Int.sign_eq_neg_one_of_neg
          have hStep : base * (x.toNat + 1) ≤ base * y.toNat :=
            Nat.mul_le_mul_left _ hLt
          rw [Nat.mul_succ] at hStep
          omega
        · rw [if_neg hLt]
          symm
          apply Int.sign_eq_one_of_pos
          have hGt : y.toNat < x.toNat := by
            rw [BitVec.lt_def] at hLt
            omega
          have hStep : base * (y.toNat + 1) ≤ base * x.toNat :=
            Nat.mul_le_mul_left _ hGt
          rw [Nat.mul_succ] at hStep
          omega

theorem compareMag_eq (ha : Trimmed a.limbs) (hb : Trimmed b.limbs) :
    compareMag a b = ((mag a.limbs : Int) - mag b.limbs).sign := by
  unfold compareMag
  by_cases hLen : a.limbs.length = b.limbs.length
  · rw [if_neg (by simpa using hLen), compareDown_eq _ _ (by simpa using hLen),
      reverse_reverse, reverse_reverse]
  rw [if_pos hLen]
  by_cases hLt : a.limbs.length < b.limbs.length
  · rw [if_pos hLt]
    have hMag := mag_lt_of_length_lt hb hLt
    exact (Int.sign_eq_neg_one_of_neg (by omega)).symm
  · rw [if_neg hLt]
    have hMag : mag b.limbs < mag a.limbs := mag_lt_of_length_lt ha (by omega)
    exact (Int.sign_eq_one_of_pos (by omega)).symm

/-- What the subtraction loop leaves is the difference exactly when the subtrahend fits into
the limbs the loop runs over. -/
theorem mag_subInPlace_eq {a b : List (BitVec 32)} (hLen : b.length ≤ a.length)
    (hMag : mag b ≤ mag a) :
    (mag (subInPlace a b 0).1 : Int) = mag a - mag b ↔ mag b ≤ mag (a.take b.length) := by
  obtain ⟨hSum, hOut⟩ := mag_subInPlace hLen (show (0 : BitVec 64).toNat ≤ 1 by decide)
  have hZero : (0 : BitVec 64).toNat = 0 := rfl
  rw [hZero, Nat.add_zero] at hSum hOut
  have hPos : 0 < (2 ^ 32) ^ b.length := Nat.pow_pos (by decide)
  by_cases hLt : mag (a.take b.length) < mag b
  · rw [if_pos hLt] at hOut
    rw [hOut, Nat.mul_one] at hSum
    constructor <;> intro h <;> omega
  · rw [if_neg hLt] at hOut
    rw [hOut, Nat.mul_zero] at hSum
    constructor <;> intro h <;> omega

theorem length_le_of_mag_le {a b : List (BitVec 32)} (hb : Trimmed b) (h : mag b ≤ mag a) :
    b.length ≤ a.length := by
  by_contra hLen
  have hLt := mag_lt_of_length_lt hb (show a.length < b.length by omega)
  omega

/-! ## Addition and subtraction -/

theorem toInt_flip (x : BigInt) : x.flip.toInt = -x.toInt := by
  obtain ⟨negative, limbs⟩ := x
  cases negative <;> simp [flip, toInt]

theorem flip_negative (h : a.negative ≠ b.negative) : a.negative = b.flip.negative := by
  show a.negative = !b.negative
  cases ha : a.negative <;> cases hb : b.negative <;> simp_all

theorem add_same (h : a.negative = b.negative) : Represents (add a b) (a.toInt + b.toInt) := by
  rw [add, if_pos h]
  apply represents_canonicalize
  have hMag : ∀ big small : List (BitVec 32), small.length ≤ big.length →
      mag (addLoop big small 0) = mag big + mag small :=
    fun big small hLen => mag_addLoop hLen (by decide)
  unfold toInt
  by_cases hLen : b.limbs.length ≤ a.limbs.length
  · simp only [if_pos hLen, hMag _ _ hLen, h]
    split <;> omega
  · simp only [if_neg hLen, hMag _ _ (Nat.le_of_not_le hLen), h]
    split <;> omega

theorem noBorrow_of_eq (h : a.limbs = b.limbs) : NoBorrow a b := by
  unfold NoBorrow
  rw [if_pos (by rw [h]), h, take_length]

theorem sub_same (h : a.negative = b.negative) (ha : Trimmed a.limbs) (hb : Trimmed b.limbs) :
    Represents (sub a b) (a.toInt - b.toInt) ↔ NoBorrow a b := by
  have hCmp := compareMag_eq ha hb
  rw [sub, if_neg (by simpa using h)]
  dsimp only
  rw [hCmp]
  rcases Nat.lt_trichotomy (mag a.limbs) (mag b.limbs) with hLt | hEq | hGt
  · -- the magnitude of `b` is the larger one and the sign turns
    have hSign : ((mag a.limbs : Int) - mag b.limbs).sign = -1 :=
      Int.sign_eq_neg_one_of_neg (by omega)
    rw [hSign, if_neg (by decide), if_pos (by decide), if_neg (by decide), if_neg (by decide)]
    have hExact := mag_subInPlace_eq (length_le_of_mag_le ha hLt.le) hLt.le
    unfold NoBorrow
    rw [if_neg (by omega), ← hExact, Represents, toInt_canonicalize]
    unfold toInt
    rw [← h]
    cases a.negative <;> simp [canonical_canonicalize] <;> omega
  · have hLimbs := eq_of_mag_eq (by decide) ha hb hEq
    have hZero : a.toInt - b.toInt = 0 := by
      unfold toInt
      rw [h, hLimbs]
      omega
    rw [if_pos (by rw [hEq]; simp), hZero]
    exact iff_of_true ⟨by decide, rfl⟩ (noBorrow_of_eq hLimbs)
  · have hSign : ((mag a.limbs : Int) - mag b.limbs).sign = 1 :=
      Int.sign_eq_one_of_pos (by omega)
    rw [hSign, if_neg (by decide), if_neg (by decide), if_pos (by decide), if_pos (by decide)]
    have hExact := mag_subInPlace_eq (length_le_of_mag_le hb hGt.le) hGt.le
    unfold NoBorrow
    rw [if_pos hGt.le, ← hExact, Represents, toInt_canonicalize]
    unfold toInt
    rw [← h]
    cases a.negative <;> simp [canonical_canonicalize] <;> omega

/-- Addition of opposite signs is a subtraction. -/
theorem add_opposite (h : a.negative ≠ b.negative) (ha : Trimmed a.limbs) (hb : Trimmed b.limbs) :
    Represents (add a b) (a.toInt + b.toInt) ↔ NoBorrow a b := by
  have hSub := sub_same (flip_negative h) ha (b := b.flip) hb
  rw [toInt_flip, Int.sub_neg] at hSub
  rw [add, if_neg h]
  exact hSub

theorem sub_opposite (h : a.negative ≠ b.negative) : Represents (sub a b) (a.toInt - b.toInt) := by
  have hAdd := add_same (flip_negative h)
  rw [toInt_flip, ← Int.sub_eq_add_neg] at hAdd
  rw [sub, if_pos h]
  exact hAdd

theorem represents_negate (a : BigInt) : Represents (negate a) (-a.toInt) :=
  represents_canonicalize (toInt_flip a)

theorem sign_eq (h : Canonical x) : x.sign = x.toInt.sign := by
  unfold sign toInt
  by_cases hNil : x.limbs = []
  · rw [if_pos hNil, hNil]
    simp [mag]
  have hPos : 0 < mag x.limbs := by
    rcases Nat.eq_zero_or_pos (mag x.limbs) with hZero | hPos
    · exact absurd (eq_nil_of_mag_eq_zero (by decide) h.trimmed hZero) hNil
    · exact hPos
  rw [if_neg hNil]
  split
  · exact (Int.sign_eq_neg_one_of_neg (by omega)).symm
  · exact (Int.sign_eq_one_of_pos (by omega)).symm

theorem sign_sub_of_sign_lt {x y : Int} (h : x.sign < y.sign) : (x - y).sign = -1 := by
  apply Int.sign_eq_neg_one_of_neg
  rcases Int.lt_trichotomy x 0 with hx | hx | hx <;>
    rcases Int.lt_trichotomy y 0 with hy | hy | hy <;>
    simp_all [Int.sign_eq_neg_one_of_neg, Int.sign_eq_one_of_pos] <;> omega

theorem Canonical.zero_of_negative (ha : Canonical a) (hNeg : a.negative = true)
    (hPos : b.negative = false) (h : a.toInt.sign = b.toInt.sign) : False := by
  have hZero : mag a.limbs = 0 := by
    unfold toInt at h
    rw [if_pos hNeg, if_neg (by rw [hPos]; decide), Int.sign_neg] at h
    have hb : 0 ≤ (mag b.limbs : Int).sign := Int.sign_nonneg_iff.mpr (Int.natCast_nonneg _)
    rcases Nat.eq_zero_or_pos (mag a.limbs) with hZero | hMag
    · exact hZero
    · rw [Int.sign_eq_one_of_pos (show (0 : Int) < mag a.limbs by omega)] at h
      omega
  rw [ha.eq_zero hZero] at hNeg
  cases hNeg

theorem compare_eq (ha : Canonical a) (hb : Canonical b) :
    compare a b = (a.toInt - b.toInt).sign := by
  unfold compare
  rw [sign_eq ha, sign_eq hb]
  by_cases hSign : a.toInt.sign = b.toInt.sign
  · rw [if_neg (by simpa using hSign), compareMag_eq ha.trimmed hb.trimmed]
    cases hNa : a.negative <;> cases hNb : b.negative
    · simp [toInt, hNa, hNb]
    · exact (hb.zero_of_negative hNb hNa hSign.symm).elim
    · exact (ha.zero_of_negative hNa hNb hSign).elim
    · simp only [toInt, hNa, hNb, if_true]
      rw [← Int.sign_neg]
      congr 1
      omega
  · rw [if_pos hSign]
    by_cases hLt : a.toInt.sign < b.toInt.sign
    · rw [if_pos hLt, sign_sub_of_sign_lt hLt]
    · rw [if_neg hLt]
      have hGt := sign_sub_of_sign_lt (show b.toInt.sign < a.toInt.sign by omega)
      rw [← Int.neg_sub, Int.sign_neg, hGt]
      rfl

theorem NoBorrow.symm (ha : Trimmed a.limbs) (hb : Trimmed b.limbs) (h : NoBorrow a b) :
    NoBorrow b a := by
  by_cases hEq : mag a.limbs = mag b.limbs
  · exact noBorrow_of_eq (eq_of_mag_eq (by decide) ha hb hEq).symm
  · unfold NoBorrow at h ⊢
    split at h
    · rwa [if_neg (by omega)]
    · rwa [if_pos (by omega)]

/-- The operations are exact when the limbs above the shorter operand are not needed for a
borrow, in the subtraction the signs ask for and in the one that takes `b` off the sum
again. -/
theorem bigint_exact {a b : BigInt} (ha : Canonical a) (hb : Canonical b) :
    Exact a b ↔ NoBorrow a b ∧ ((ofInt (a.toInt + b.toInt)).negative = b.negative →
        NoBorrow (ofInt (a.toInt + b.toInt)) b) := by
  have hSum := represents_ofInt (a.toInt + b.toInt)
  constructor
  · intro h
    constructor
    · by_cases hSign : a.negative = b.negative
      · exact (sub_same hSign ha.trimmed hb.trimmed).mp h.sub
      · exact (add_opposite hSign ha.trimmed hb.trimmed).mp h.add
    · intro hSign
      apply (sub_same hSign hSum.1.trimmed hb.trimmed).mp
      rw [hSum.2, Int.add_sub_cancel, ← h.add.unique hSum, h.cancel]
      exact ⟨ha, rfl⟩
  · rintro ⟨hDiff, hBack⟩
    have hAdd : Represents (add a b) (a.toInt + b.toInt) := by
      by_cases hSign : a.negative = b.negative
      · exact add_same hSign
      · exact (add_opposite hSign ha.trimmed hb.trimmed).mpr hDiff
    have hSub : Represents (sub a b) (a.toInt - b.toInt) := by
      by_cases hSign : a.negative = b.negative
      · exact (sub_same hSign ha.trimmed hb.trimmed).mpr hDiff
      · exact sub_opposite hSign
    have hRev : Represents (sub b a) (b.toInt - a.toInt) := by
      by_cases hSign : b.negative = a.negative
      · exact (sub_same hSign hb.trimmed ha.trimmed).mpr (hDiff.symm ha.trimmed hb.trimmed)
      · exact sub_opposite hSign
    have hCancel : Represents (sub (ofInt (a.toInt + b.toInt)) b) a.toInt := by
      have hOf : Represents (sub (ofInt (a.toInt + b.toInt)) b)
          ((ofInt (a.toInt + b.toInt)).toInt - b.toInt) := by
        by_cases hSign : (ofInt (a.toInt + b.toInt)).negative = b.negative
        · exact (sub_same hSign hSum.1.trimmed hb.trimmed).mpr (hBack hSign)
        · exact sub_opposite hSign
      rwa [hSum.2, Int.add_sub_cancel] at hOf
    constructor
    · exact hAdd
    · exact hSub
    · exact represents_negate a
    · exact compare_eq ha hb
    · rw [hAdd.unique hSum]
      exact hCancel.unique ⟨ha, rfl⟩
    · have hNeg := represents_negate (sub b a)
      rw [hRev.2, Int.neg_sub] at hNeg
      exact hSub.unique hNeg

/-- Two operands of one limb each lose nothing. -/
theorem bigint_exact_small : (Canonical ⟨false, [7]⟩ ∧ Canonical ⟨true, [3]⟩) ∧
      Exact ⟨false, [7]⟩ ⟨true, [3]⟩ :=
  ⟨⟨by decide, by decide⟩, (bigint_exact (by decide) (by decide)).mpr ⟨by decide, by decide⟩⟩

/-- Taking `1` off `2 ^ 32` needs a borrow from the second limb, which is not taken. -/
theorem sub_loses_borrow : ¬(∀ a b : BigInt, Canonical a → Canonical b → Exact a b) := by
  intro h
  have hSub := (h ⟨false, [0, 1]⟩ ⟨false, [1]⟩ (by decide) (by decide)).sub.2
  have hRun : sub ⟨false, [0, 1]⟩ ⟨false, [1]⟩ = ⟨false, [0xFFFFFFFF, 1]⟩ := by
    rw [sub]
    decide
  rw [hRun] at hSub
  revert hSub
  decide

end BigInt

end B2Compiler.Ts
