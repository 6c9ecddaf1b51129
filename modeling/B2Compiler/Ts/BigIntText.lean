import B2Compiler.Ts.BigInt
import B2Compiler.Ts.Objects

/-!
# BigInt products and numerals

Schoolbook multiplication, printing in chunks of nine digits and reading digit by digit.
The product is written into limbs set aside for it; reaching past them answers `none`.
-/

namespace B2Compiler.Ts

open B2Compiler.Lib List

namespace BigInt

variable {a b x : BigInt}

/-! ## The arithmetic of the source -/

/-- A sum of 64 bits as a limb and what it carries. -/
def lowLimb (cur : BitVec 64) : BitVec 32 := (cur &&& 0xFFFFFFFF).setWidth 32

/-- The carry goes on beyond the limbs of the multiplicand. -/
def carryLoop : List (BitVec 32) → BitVec 64 → Option (List (BitVec 32))
  | [], carry => if carry = 0 then some [] else none
  | r :: rs, carry =>
    if carry = 0 then some (r :: rs)
    else
      let cur := r.setWidth 64 + carry
      (carryLoop rs (cur >>> 32)).map (lowLimb cur :: ·)

/-- One limb of `a` times the limbs of `b`, added to the limbs of the result from there on. -/
def mulRow (x : BitVec 32) : List (BitVec 32) → List (BitVec 32) → BitVec 64 →
    Option (List (BitVec 32))
  | [], rs, carry => carryLoop rs carry
  | _ :: _, [], _ => none
  | y :: ys, r :: rs, carry =>
    let cur := r.setWidth 64 + x.setWidth 64 * y.setWidth 64 + carry
    (mulRow x ys rs (cur >>> 32)).map (lowLimb cur :: ·)

def mulLoop (b : List (BitVec 32)) : List (BitVec 32) → List (BitVec 32) → Option (List (BitVec 32))
  | [], rs => some rs
  | x :: a, rs =>
    match mulRow x b rs 0 with
    | some (r :: rs) => (mulLoop b a rs).map (r :: ·)
    | _ => none

def mul (a b : BigInt) : Option BigInt :=
  if a.limbs = [] ∨ b.limbs = [] then some {}
  else
    (mulLoop b.limbs a.limbs (replicate (a.limbs.length + b.limbs.length) 0)).map fun limbs =>
      canonicalize ⟨a.negative != b.negative, limbs⟩

/-- Division by one limb, the high limb first: the quotient's limbs and the remainder. -/
def shortDivision (divisor : BitVec 64) : List (BitVec 32) → List (BitVec 32) × BitVec 64
  | [] => ([], 0)
  | x :: xs =>
    let (q, rem) := shortDivision divisor xs
    let cur := rem <<< 32 ||| x.setWidth 64
    ((cur / divisor).setWidth 32 :: q, cur % divisor)

def chunk : BitVec 64 := 1000000000

/-- The loop of `toString`, with fuel: the chunks of nine digits, the low chunk first. -/
def chunks : Nat → List (BitVec 32) → Option (List (BitVec 32))
  | _, [] => some []
  | 0, _ => none
  | n + 1, limbs =>
    let (q, rem) := shortDivision chunk limbs
    (chunks n (trim q)).map (rem.setWidth 32 :: ·)

def digitChar (d : Nat) : UInt16 := 0x30 + .ofNat d

/-- A number as `%u` prints it. -/
def decimal (n : Nat) : Text :=
  if n = 0 then [0x30] else (Nat.digits 10 n).reverse.map digitChar

/-- A chunk, as `%09u` prints it where one is before it. -/
def appendChunk (c : BitVec 32) (pad : Bool) : Text :=
  let s := decimal c.toNat
  if pad then replicate (9 - s.length) 0x30 ++ s else s

def printChunks : List (BitVec 32) → Text
  | [] => []
  | c :: cs => printChunks cs ++ appendChunk c (cs ≠ [])

def toString (fuel : Nat) (x : BigInt) : Option Text :=
  if x.limbs = [] then some [0x30]
  else (chunks fuel x.limbs).map fun cs => (if x.negative then [0x2D] else []) ++ printChunks cs

def pushLimbs : Nat → BitVec 64 → List (BitVec 32)
  | 0, _ => []
  | n + 1, mag => if mag = 0 then [] else lowLimb mag :: pushLimbs n (mag >>> 32)

def fromInt64 (v : BitVec 64) : BigInt :=
  if v = 0 then {}
  else ⟨v.slt 0, pushLimbs 2 (if v.slt 0 then -(v + 1) + 1 else v)⟩

def kMaxBigIntBits : Nat := 2 ^ 20

/-- The loop of `fromString` over the digits and the separators between them. -/
def readDigits : Text → BigInt → Option BigInt
  | [], acc => some acc
  | c :: s, acc =>
    if c = 0x5F then readDigits s acc
    else if c < 0x30 ∨ c > 0x39 then none
    else do
      let acc ← mul acc (fromInt64 10)
      let acc := add acc (fromInt64 (.ofNat 64 (c - 0x30).toNat))
      if acc.limbs.length > kMaxBigIntBits / 32 then none else readDigits s acc

def fromString (s : Text) : Option BigInt :=
  let signed := s.head? = some 0x2D ∨ s.head? = some 0x2B
  let digits := if signed then s.tail else s
  if digits = [] then none
  else (readDigits digits {}).map fun acc =>
    canonicalize { acc with negative := s.head? = some 0x2D }

/-! ## Multiplication -/

theorem lowLimb_add_carry (cur : BitVec 64) :
    (lowLimb cur).toNat + 2 ^ 32 * (cur >>> 32).toNat = cur.toNat := by
  rw [lowLimb, low_limb, BitVec.toNat_ushiftRight, Nat.shiftRight_eq_div_pow]
  exact Nat.mod_add_div _ _

/-- The carry finds room for as long as the sum does. -/
theorem carryLoop_eq {rs : List (BitVec 32)} {carry : BitVec 64} (hCarry : carry.toNat < 2 ^ 32)
    (h : mag rs + carry.toNat < (2 ^ 32) ^ rs.length) :
    ∃ rs', carryLoop rs carry = some rs' ∧ rs'.length = rs.length ∧
      mag rs' = mag rs + carry.toNat := by
  induction rs generalizing carry with
  | nil =>
    have hZero : carry = 0 := BitVec.eq_of_toNat_eq (by simpa [mag] using h)
    subst hZero
    exact ⟨[], rfl, rfl, rfl⟩
  | cons r rs ih =>
    by_cases hZero : carry = 0
    · subst hZero
      exact ⟨r :: rs, if_pos rfl, rfl, rfl⟩
    have hr := r.isLt
    have hCur : (r.setWidth 64 + carry).toNat = r.toNat + carry.toNat := by
      rw [BitVec.toNat_add, BitVec.toNat_setWidth]
      omega
    have hSplit := lowLimb_add_carry (r.setWidth 64 + carry)
    rw [length_cons, pow_succ', mag] at h
    have hShift : ((r.setWidth 64 + carry) >>> 32).toNat < 2 ^ 32 := by omega
    obtain ⟨rs', hRun, hLen, hMag⟩ := ih hShift (by omega)
    refine ⟨lowLimb (r.setWidth 64 + carry) :: rs', ?_, by simp [hLen], ?_⟩
    · simp only [carryLoop, if_neg hZero, hRun, Option.map_some]
    · rw [mag, mag, hMag]
      omega

theorem toNat_mulLimb (r x y : BitVec 32) {carry : BitVec 64} (h : carry.toNat < 2 ^ 32) :
    (r.setWidth 64 + x.setWidth 64 * y.setWidth 64 + carry).toNat =
      r.toNat + x.toNat * y.toNat + carry.toNat := by
  have hr := r.isLt
  have hProd : x.toNat * y.toNat ≤ (2 ^ 32 - 1) * (2 ^ 32 - 1) :=
    Nat.mul_le_mul (Nat.le_pred_of_lt x.isLt) (Nat.le_pred_of_lt y.isLt)
  rw [BitVec.toNat_add, BitVec.toNat_add, BitVec.toNat_mul]
  simp only [BitVec.toNat_setWidth]
  rw [Nat.mod_eq_of_lt (by omega : x.toNat < 2 ^ 64),
    Nat.mod_eq_of_lt (by omega : y.toNat < 2 ^ 64)]
  omega

theorem mulRow_eq (x : BitVec 32) {ys rs : List (BitVec 32)} {carry : BitVec 64}
    (hCarry : carry.toNat < 2 ^ 32) (hLen : ys.length ≤ rs.length)
    (h : mag rs + x.toNat * mag ys + carry.toNat < (2 ^ 32) ^ rs.length) :
    ∃ rs', mulRow x ys rs carry = some rs' ∧ rs'.length = rs.length ∧
      mag rs' = mag rs + x.toNat * mag ys + carry.toNat := by
  induction ys generalizing rs carry with
  | nil => simpa [mulRow, mag] using carryLoop_eq hCarry (by simpa [mag] using h)
  | cons y ys ih =>
    cases rs with
    | nil => cases hLen
    | cons r rs =>
      have hCur := toNat_mulLimb r x y hCarry
      have hSplit := lowLimb_add_carry (r.setWidth 64 + x.setWidth 64 * y.setWidth 64 + carry)
      have hRow : x.toNat * mag (y :: ys) = x.toNat * y.toNat + 2 ^ 32 * (x.toNat * mag ys) := by
        rw [mag]
        ring
      rw [length_cons, pow_succ', mag, hRow] at h
      have hShift : ((r.setWidth 64 + x.setWidth 64 * y.setWidth 64 + carry) >>> 32).toNat <
          2 ^ 32 := by
        have := (r.setWidth 64 + x.setWidth 64 * y.setWidth 64 + carry).isLt
        omega
      obtain ⟨rs', hRun, hLen', hMag⟩ := ih hShift (Nat.le_of_succ_le_succ hLen) (by omega)
      refine ⟨lowLimb (r.setWidth 64 + x.setWidth 64 * y.setWidth 64 + carry) :: rs', ?_,
        by simp [hLen'], ?_⟩
      · simp only [mulRow, hRun, Option.map_some]
      · rw [hRow, mag, mag, hMag]
        omega

theorem mulLoop_eq (b : List (BitVec 32)) {xs rs : List (BitVec 32)}
    (hLen : rs.length = xs.length + b.length) (hb : b ≠ [])
    (h : mag rs + mag xs * mag b < (2 ^ 32) ^ rs.length) :
    ∃ rs', mulLoop b xs rs = some rs' ∧ mag rs' = mag rs + mag xs * mag b := by
  induction xs generalizing rs with
  | nil => exact ⟨rs, rfl, by simp [mag]⟩
  | cons x xs ih =>
    have hBound : mag (x :: xs) * mag b = x.toNat * mag b + 2 ^ 32 * (mag xs * mag b) := by
      rw [mag, add_mul, mul_assoc]
    rw [length_cons] at hLen
    obtain ⟨rs', hRun, hLen', hMag⟩ :=
      mulRow_eq x (by decide : (0 : BitVec 64).toNat < _) (show b.length ≤ rs.length by omega)
        (by rw [hBound] at h; exact Nat.lt_of_le_of_lt (by simp) h)
    cases rs' with
    | nil => simp at hLen'; omega
    | cons r rest =>
      rw [mag] at hMag
      rw [length_cons] at hLen'
      obtain ⟨rs'', hLoop, hMag'⟩ := ih (by omega : rest.length = _) (by
        rw [hBound, ← hLen', pow_succ' _ rest.length] at h
        have hZero : (0 : BitVec 64).toNat = 0 := rfl
        omega)
      refine ⟨r :: rs'', by simp only [mulLoop, hRun, hLoop, Option.map_some], ?_⟩
      have hZero : (0 : BitVec 64).toNat = 0 := rfl
      rw [hBound, mag, hMag']
      omega

theorem mag_replicate_zero (n : Nat) : mag (replicate n (0 : BitVec 32)) = 0 := by
  induction n with
  | zero => rfl
  | succ n ih => rw [replicate_succ, mag, ih]; rfl

theorem mul_eq (a b : BigInt) : ∃ r, mul a b = some r ∧ Represents r (a.toInt * b.toInt) := by
  by_cases hNil : a.limbs = [] ∨ b.limbs = []
  · refine ⟨{}, if_pos hNil, ⟨by decide, ?_⟩⟩
    rcases hNil with h | h <;> simp [toInt, h, mag]
  have hBound : mag a.limbs * mag b.limbs < (2 ^ 32) ^ (a.limbs.length + b.limbs.length) := by
    rw [pow_add]
    exact Nat.mul_lt_mul'' (mag_lt _) (mag_lt _)
  have hLen : (replicate (a.limbs.length + b.limbs.length) (0 : BitVec 32)).length =
      a.limbs.length + b.limbs.length := length_replicate
  obtain ⟨limbs, hRun, hMag⟩ := mulLoop_eq b.limbs hLen (fun h => hNil (.inr h))
    (by rwa [mag_replicate_zero, zero_add, length_replicate])
  rw [mag_replicate_zero, zero_add] at hMag
  refine ⟨_, by rw [mul, if_neg hNil, hRun]; rfl, represents_canonicalize ?_⟩
  unfold toInt
  rw [hMag]
  push_cast
  cases a.negative <;> cases b.negative <;> simp

/-! ## Printing -/

theorem shortDivision_eq (xs : List (BitVec 32)) {d : BitVec 64} (hPos : 0 < d.toNat)
    (hd : d.toNat ≤ 2 ^ 32) :
    mag xs = d.toNat * mag (shortDivision d xs).1 + (shortDivision d xs).2.toNat ∧
      (shortDivision d xs).2.toNat < d.toNat := by
  induction xs with
  | nil => exact ⟨rfl, hPos⟩
  | cons x xs ih =>
    obtain ⟨hMag, hRem⟩ := ih
    have hx := x.isLt
    have hCur : ((shortDivision d xs).2 <<< 32 ||| x.setWidth 64).toNat =
        x.toNat + 2 ^ 32 * (shortDivision d xs).2.toNat := by
      rw [BitVec.toNat_or, BitVec.toNat_shiftLeft, BitVec.toNat_setWidth,
        Nat.mod_eq_of_lt (by rw [Nat.shiftLeft_eq]; omega), Nat.mod_eq_of_lt (by omega),
        ← Nat.shiftLeft_add_eq_or_of_lt hx, Nat.shiftLeft_eq]
      ring
    have hDigit : (x.toNat + 2 ^ 32 * (shortDivision d xs).2.toNat) / d.toNat < 2 ^ 32 := by
      rw [Nat.div_lt_iff_lt_mul hPos]
      nlinarith
    have hSplit := Nat.div_add_mod (x.toNat + 2 ^ 32 * (shortDivision d xs).2.toNat) d.toNat
    simp only [shortDivision, mag, BitVec.toNat_setWidth, BitVec.toNat_udiv, BitVec.toNat_umod,
      hCur, Nat.mod_eq_of_lt hDigit]
    refine ⟨?_, Nat.mod_lt _ hPos⟩
    rw [hMag]
    linarith

theorem decimal_of_pos {n : Nat} (h : 0 < n) :
    decimal n = (Nat.digits 10 n).reverse.map digitChar :=
  if_neg h.ne'

theorem appendChunk_pad (c : BitVec 32) : appendChunk c true =
    (Nat.digits 10 c.toNat ++ replicate (9 - (Nat.digits 10 c.toNat).length) 0).reverse.map
      digitChar := by
  rw [appendChunk, if_pos rfl, reverse_append, map_append, reverse_replicate, map_replicate]
  by_cases hc : c.toNat = 0
  · rw [hc]
    rfl
  · rw [decimal_of_pos (Nat.pos_of_ne_zero hc), length_map, length_reverse]
    rfl

theorem decimal_append {n : Nat} (hn : 0 < n) (c : BitVec 32) (h : c.toNat < 10 ^ 9) :
    decimal n ++ appendChunk c true = decimal (10 ^ 9 * n + c.toNat) := by
  have hLen := (Nat.digits_length_le_iff (b := 10) (k := 9) (by decide) c.toNat).mpr h
  rw [decimal_of_pos hn, decimal_of_pos (by omega), appendChunk_pad c, ← map_append,
    ← reverse_append, Nat.digits_append_zeroes_append_digits (by decide) hn,
    Nat.add_sub_cancel' hLen, Nat.add_comm]

theorem printChunks_chunks (n : Nat) {xs : List (BitVec 32)} (hTrim : Trimmed xs)
    (hNe : xs ≠ []) (h : mag xs < (10 ^ 9) ^ n) :
    ∃ cs, chunks n xs = some cs ∧ cs ≠ [] ∧ printChunks cs = decimal (mag xs) := by
  induction n generalizing xs with
  | zero =>
    rw [pow_zero, Nat.lt_one_iff] at h
    exact absurd (eq_nil_of_mag_eq_zero (by decide) hTrim h) hNe
  | succ n ih =>
    obtain ⟨hMag, hRem⟩ := shortDivision_eq xs (d := chunk) (by decide) (by decide)
    have hRem' : (shortDivision chunk xs).2.toNat < 10 ^ 9 := hRem
    have hLimb : ((shortDivision chunk xs).2.setWidth 32).toNat =
        (shortDivision chunk xs).2.toNat := by
      rw [BitVec.toNat_setWidth, Nat.mod_eq_of_lt (by omega)]
    rw [show chunk.toNat = 10 ^ 9 from rfl] at hMag
    have hRun : chunks (n + 1) xs = (chunks n (trim (shortDivision chunk xs).1)).map
        ((shortDivision chunk xs).2.setWidth 32 :: ·) := by
      cases xs with
      | nil => exact absurd rfl hNe
      | cons => rfl
    by_cases hQ : trim (shortDivision chunk xs).1 = []
    · have hZero := mag_trim (shortDivision chunk xs).1
      rw [hQ] at hZero
      refine ⟨[(shortDivision chunk xs).2.setWidth 32], by rw [hRun, hQ]; cases n <;> rfl,
        cons_ne_nil _ _, ?_⟩
      rw [hMag, ← hZero, ← hLimb]
      exact congrArg decimal (by rw [mag]; omega)
    · rw [pow_succ'] at h
      obtain ⟨cs, hCs, hCsNe, hPrint⟩ := ih (trimmed_trim _) hQ (by rw [mag_trim]; omega)
      refine ⟨(shortDivision chunk xs).2.setWidth 32 :: cs, by rw [hRun, hCs]; rfl,
        cons_ne_nil _ _, ?_⟩
      have hPos : 0 < mag (shortDivision chunk xs).1 := by
        rw [← mag_trim]
        exact Nat.pos_of_ne_zero fun hZero =>
          hQ (eq_nil_of_mag_eq_zero (by decide) (trimmed_trim _) hZero)
      rw [printChunks, hPrint, mag_trim, decide_eq_true hCsNe,
        decimal_append hPos _ (hLimb ▸ hRem'), hLimb, ← hMag]

/-- The decimal numeral of a BigInt, without leading zeros. -/
def numeral (x : BigInt) : Text :=
  (if x.negative then [0x2D] else []) ++ decimal (mag x.limbs)

theorem toString_eq (hx : Canonical x) {n : Nat} (hn : 2 * x.limbs.length ≤ n) :
    toString n x = some (numeral x) := by
  by_cases hNil : x.limbs = []
  · rw [toString, if_pos hNil, numeral, hx.unsigned hNil, hNil]
    rfl
  have hBound : mag x.limbs < (10 ^ 9) ^ n := calc
    mag x.limbs < (2 ^ 32) ^ x.limbs.length := mag_lt _
    _ ≤ ((10 ^ 9) ^ 2) ^ x.limbs.length := Nat.pow_le_pow_left (by decide) _
    _ = (10 ^ 9) ^ (2 * x.limbs.length) := (pow_mul _ _ _).symm
    _ ≤ (10 ^ 9) ^ n := Nat.pow_le_pow_right (by decide) hn
  obtain ⟨cs, hCs, -, hPrint⟩ := printChunks_chunks n hx.trimmed hNil hBound
  rw [toString, if_neg hNil, hCs, Option.map_some, hPrint, numeral]

/-! ## Reading -/

theorem represents_fromInt64 : ∀ d : Fin 11, Represents (fromInt64 (.ofNat 64 d)) d := by
  have hDec : ∀ d : Fin 11, Canonical (fromInt64 (.ofNat 64 d)) ∧
      (fromInt64 (.ofNat 64 d)).toInt = d := by decide
  exact hDec

theorem Represents.negative_eq {v : Nat} (h : Represents x v) : x.negative = false := by
  obtain ⟨hCanonical, hInt⟩ := h
  cases hNeg : x.negative with
  | false => rfl
  | true =>
    rw [toInt, if_pos hNeg] at hInt
    have hZero : mag x.limbs = 0 := by omega
    exact hNeg.symm.trans (by rw [hCanonical.eq_zero hZero])

theorem Represents.mag_eq {v : Nat} (h : Represents x v) : mag x.limbs = v := by
  rw [← natAbs_toInt, h.2, Int.natAbs_natCast]

/-- A number of at most `kMaxBigIntBits` bits has no more limbs than the reader allows. -/
theorem length_le_of_bits {xs : List (BitVec 32)} (hTrim : Trimmed xs)
    (h : mag xs < 2 ^ kMaxBigIntBits) : xs.length ≤ kMaxBigIntBits / 32 := by
  rw [show kMaxBigIntBits = 32 * (kMaxBigIntBits / 32) by decide, pow_mul,
    ← Nat.digits_length_le_iff (by decide), digits_mag (by decide) hTrim, length_map] at h
  exact h

theorem digitChar_facts : ∀ d : Fin 10, digitChar d ≠ 0x5F ∧
    ¬(digitChar d < 0x30 ∨ digitChar d > 0x39) ∧ (digitChar d - 0x30).toNat = d ∧
    digitChar d ≠ 0x2D ∧ digitChar d ≠ 0x2B := by
  decide

/-- The number the digits append to `v`. -/
def appended (v : Nat) (ds : List Nat) : Nat := ds.foldl (fun v d => 10 * v + d) v

theorem le_appended (v : Nat) (ds : List Nat) : v ≤ appended v ds := by
  induction ds generalizing v with
  | nil => exact Nat.le_refl v
  | cons d ds ih => exact Nat.le_trans (by omega) (ih (10 * v + d))

/-- Reading digits multiplies by ten and adds, as long as the number stays in bounds. -/
theorem readDigits_eq {ds : List Nat} (hDigits : ∀ d ∈ ds, d < 10) {acc : BigInt} {v : Nat}
    (hAcc : Represents acc v) (h : appended v ds < 2 ^ kMaxBigIntBits) :
    ∃ r, readDigits (ds.map digitChar) acc = some r ∧ Represents r (appended v ds) := by
  induction ds generalizing acc v with
  | nil => exact ⟨acc, rfl, hAcc⟩
  | cons d ds ih =>
    have hd : d < 10 := hDigits d mem_cons_self
    obtain ⟨hSeparator, hRange, hValue, -⟩ := digitChar_facts ⟨d, hd⟩
    have hDigit : Represents (fromInt64 (.ofNat 64 d)) d :=
      represents_fromInt64 ⟨d, Nat.lt_succ_of_lt hd⟩
    obtain ⟨m, hMul, hm⟩ := mul_eq acc (fromInt64 10)
    have hm' : Represents m (v * 10 : Nat) := by
      rw [hAcc.2, show (fromInt64 10).toInt = 10 by decide] at hm
      exact_mod_cast hm
    have hSum : Represents (add m (fromInt64 (.ofNat 64 d))) (10 * v + d : Nat) := by
      have hAdd := add_same (hm'.negative_eq.trans hDigit.negative_eq.symm)
      rw [hm'.2, hDigit.2] at hAdd
      rw [Nat.mul_comm]
      exact_mod_cast hAdd
    have hLimbs : (add m (fromInt64 (.ofNat 64 d))).limbs.length ≤ kMaxBigIntBits / 32 := by
      apply length_le_of_bits hSum.1.trimmed
      rw [hSum.mag_eq]
      exact Nat.lt_of_le_of_lt (le_appended _ ds) h
    obtain ⟨r, hRun, hr⟩ := ih (fun d hMem => hDigits d (mem_cons_of_mem _ hMem)) hSum h
    refine ⟨r, ?_, hr⟩
    rw [map_cons, readDigits, if_neg hSeparator, if_neg hRange, hMul, hValue]
    simp only [Option.bind_eq_bind, Option.bind_some, if_neg (Nat.not_lt.mpr hLimbs), hRun]

theorem decimal_digits (n : Nat) : ∃ d ds, decimal n = (d :: ds).map digitChar ∧
    (∀ e ∈ d :: ds, e < 10) ∧ appended 0 (d :: ds) = n := by
  rcases Nat.eq_zero_or_pos n with rfl | hn
  · exact ⟨0, [], rfl, by simp, rfl⟩
  obtain ⟨d, ds, hCons⟩ : ∃ d ds, (Nat.digits 10 n).reverse = d :: ds :=
    exists_cons_of_ne_nil (by simpa using Nat.digits_ne_nil_iff_ne_zero.mpr hn.ne')
  refine ⟨d, ds, by rw [decimal_of_pos hn, hCons], ?_, ?_⟩
  · intro e he
    rw [← hCons, mem_reverse] at he
    exact Nat.digits_lt_base (by decide) he
  rw [appended, ← hCons, foldl_reverse]
  calc _ = Nat.ofDigits 10 (Nat.digits 10 n) := by
        rw [Nat.ofDigits_eq_foldr]
        congr
        funext d v
        simp [Nat.add_comm]
    _ = n := Nat.ofDigits_digits 10 n

theorem fromString_numeral (hx : Canonical x) (h : mag x.limbs < 2 ^ kMaxBigIntBits) :
    fromString (numeral x) = some x := by
  obtain ⟨d, ds, hDecimal, hDigits, hValue⟩ := decimal_digits (mag x.limbs)
  have hZero : Represents {} (0 : Nat) := ⟨by decide, rfl⟩
  obtain ⟨r, hRun, hr⟩ := readDigits_eq hDigits hZero (hValue ▸ h)
  obtain ⟨-, -, -, hMinus, hPlus⟩ := digitChar_facts ⟨d, hDigits d mem_cons_self⟩
  have hResult : Represents (canonicalize { r with negative := x.negative }) x.toInt := by
    apply represents_canonicalize
    show (if x.negative then -(mag r.limbs : Int) else mag r.limbs) = x.toInt
    rw [hr.mag_eq, hValue, toInt]
  have hBack := hResult.unique ⟨hx, rfl⟩
  rw [numeral, hDecimal]
  cases hNeg : x.negative with
  | true =>
    rw [hNeg] at hBack
    simp [fromString, hRun, ← map_cons, hBack]
  | false =>
    rw [hNeg] at hBack
    simp [fromString, hRun, ← map_cons, hMinus, hPlus, hBack]

/-- Products and numerals are exact, and a number within the limit reads back. -/
theorem bigint_text (a b : BigInt) (hx : Canonical x) :
    (∃ r, mul a b = some r ∧ Represents r (a.toInt * b.toInt)) ∧
      (∀ n, 2 * x.limbs.length ≤ n → toString n x = some (numeral x)) ∧
      (mag x.limbs < 2 ^ kMaxBigIntBits → fromString (numeral x) = some x) :=
  ⟨mul_eq a b, fun _ hn => toString_eq hx hn, fun h => fromString_numeral hx h⟩

/-- A number whose low chunk is zero. -/
def billion : BigInt := ⟨true, [1000000000]⟩

theorem bigint_text_billion :
    (∃ r, mul billion billion = some r ∧ Represents r (billion.toInt * billion.toInt)) ∧
      toString 2 billion = some (numeral billion) ∧
      fromString (numeral billion) = some billion := by
  obtain ⟨hMul, hPrint, hRead⟩ := bigint_text billion billion (x := billion) (by decide)
  exact ⟨hMul, hPrint 2 (by decide), hRead
    (Nat.lt_of_lt_of_le (by decide : mag billion.limbs < 2 ^ 32)
      (Nat.pow_le_pow_right (by decide) (by decide)))⟩

end BigInt

end B2Compiler.Ts
