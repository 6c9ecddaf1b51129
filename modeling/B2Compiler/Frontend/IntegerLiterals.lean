import B2Compiler.Frontend.LowerExpr
import B2Compiler.Frontend.Token
import B2Compiler.Frontend.UnicodeEscapes
import Mathlib.Data.Nat.Digits.Defs

/-!
# Integer literals

The lexer reads a number at a place of the translated text, which is the list of the code
points from there on.  `rawAt` is the offset of a place in the source, and `fromChars` is
`std::from_chars` on floating point: the bits of the number, and whether it is out of range.
-/

namespace B2Compiler.Frontend.Lexer

open List

def cp (c : Char) : Nat := c.toNat

/-! ## Character classes -/

def isDigit (c : Nat) : Bool := cp '0' ≤ c ∧ c ≤ cp '9'

def isOctalDigit (c : Nat) : Bool := cp '0' ≤ c ∧ c ≤ cp '7'

def isBinaryDigit (c : Nat) : Bool := c = cp '0' ∨ c = cp '1'

def isHexDigit (c : Nat) : Bool :=
  isDigit c ∨ cp 'a' ≤ c ∧ c ≤ cp 'f' ∨ cp 'A' ≤ c ∧ c ≤ cp 'F'

def isAsciiLetter (c : Nat) : Bool :=
  cp 'a' ≤ c ∧ c ≤ cp 'z' ∨ cp 'A' ≤ c ∧ c ≤ cp 'Z'

/-- The blocks in the order of the source: whether their characters can stand in names. -/
def unicodeBlocks : List (Nat × Nat × Bool) :=
  [(0x0370, 0x1FFF, true), (0x2000, 0x206F, false), (0x2070, 0x2BFF, false),
    (0x2C00, 0x2FFF, true), (0x3000, 0x303F, false), (0x3041, 0xD7FF, true),
    (0xF900, 0xFDCF, true), (0xFDD0, 0xFDEF, false), (0xFE10, 0xFE1F, false),
    (0xFE20, 0xFE4F, true), (0xFF01, 0xFF20, false), (0xFF21, 0xFF3A, true),
    (0xFF41, 0xFF5A, true), (0xFF66, 0xFFDC, true), (0xFFE0, 0xFFFF, false),
    (0x10000, 0x1D7FF, true)]

def isUnicodeIdentChar (c : Nat) : Bool :=
  if c < 0x80 ∨ c = 0xFEFF then false
  else if 0xAA ≤ c ∧ c ≤ 0xB5 ∨ 0xBA ≤ c ∧ c ≤ 0x2FF then c ≠ 0xD7 ∧ c ≠ 0xF7
  else ((unicodeBlocks.find? fun b => b.1 ≤ c ∧ c ≤ b.2.1).map (·.2.2)).getD false

def isIdentStart (c : Nat) : Bool :=
  isAsciiLetter c || c == cp '_' || c == cp '$' || isUnicodeIdentChar c

def isIdentPart (c : Nat) : Bool := isIdentStart c || isDigit c

/-! ## The cursor -/

/-- The code point at the cursor, 0 at the end. -/
def cur (s : List Nat) : Nat := s.headD 0

def peekCp (s : List Nat) (n : Nat) : Nat := cur (s.drop n)

abbrev Errors := List (Nat × String)

/-- A token, the text behind it, and the errors reported on the way. -/
structure Lexed where
  token : Token
  rest : List Nat
  errs : Errors

section Runner

variable (rawAt : List Nat → Nat) (fromChars : Bool → List Nat → UInt64 × Bool)

def finish (kind : Tok) (start s : List Nat) : Token :=
  { kind := kind, offset := rawAt start, length := rawAt s - rawAt start }

def spelling (start s : List Nat) : List UInt8 :=
  (start.take (start.length - s.length)).flatMap encodeUtf8

/-- `err(start, msg); return finish(Tok::Error, start);` behind the rest of the word -/
def malformed (start s : List Nat) (errs : Errors) (msg : String) : Lexed :=
  let s := s.dropWhile isIdentPart
  ⟨finish rawAt .error start s, s, errs ++ [(rawAt start, msg)]⟩

/-! ## Numbers -/

def isDigitOf (base c : Nat) : Bool :=
  if base = 16 then isHexDigit c
  else if base = 10 then isDigit c
  else if base = 8 then isOctalDigit c
  else isBinaryDigit c

def misplaced (s : List Nat) : Nat × String := (rawAt s, "misplaced '_' in numeric literal")

/-- `pending` is the place of the last character when that is an underscore. -/
def scanDigits (base : Nat) : Bool → List Nat → Option (List Nat) → List Nat →
    List Nat × List Nat × Errors
  | _, digits, pending, [] => (digits, [], (pending.map (misplaced rawAt)).toList)
  | prevDigit, digits, pending, c :: s =>
      if c = cp '_' then
        let r := scanDigits base prevDigit digits (some (c :: s)) s
        (r.1, r.2.1,
          (if !prevDigit && digits.isEmpty then [misplaced rawAt (c :: s)] else []) ++ r.2.2)
      else if isDigitOf base c then scanDigits base true (digits ++ [c]) none s
      else (digits, c :: s, (pending.map (misplaced rawAt)).toList)

def scanFraction (base : Nat) (s : List Nat) :
    Option (List Nat) × List Nat × Errors :=
  if cur s = cp '.' then
    let r := scanDigits rawAt base false [] none s.tail
    (some r.1, r.2)
  else (none, s, [])

def isSign (c : Nat) : Bool := c = cp '+' ∨ c = cp '-'

/-- The letter in either case. -/
def isLetter (letter : Char) (c : Nat) : Bool := c = cp letter ∨ c = cp letter.toUpper

/-- An exponent behind its mark, when digits follow. -/
def scanExponent (mark : Char) (s : List Nat) :
    Option (List Nat) × List Nat × Errors :=
  let n1 := peekCp s 1
  if isLetter mark (cur s) ∧ (isDigit n1 ∨ isSign n1 ∧ isDigit (peekCp s 2)) then
    let sign := if isSign n1 then [n1] else []
    let r := scanDigits rawAt 10 false [] none (s.drop (1 + sign.length))
    (some (cp mark :: sign ++ r.1), r.2)
  else (none, s, [])

def scanSuffix (isFloat : Bool) (s : List Nat) : Option Char × List Nat :=
  if isLetter 'f' (cur s) then (some 'f', s.tail)
  else if isLetter 'd' (cur s) then (some 'd', s.tail)
  else if !isFloat && isLetter 'l' (cur s) then (some 'l', s.tail)
  else (none, s)

def digitVal (c : Nat) : Nat := (hexVal (.ofNat c)).getD 0

/-- `std::from_chars` into an `uint64_t`, and the token of its value -/
def integerLiteral (base : Nat) (digits : List Nat) (long : Bool) (start s : List Nat)
    (errs : Errors) : Lexed :=
  let value := digits.foldl (fun v d => v * base + digitVal d) 0
  let t := finish rawAt (if long then .longLiteral else .integerLiteral) start s
  ⟨{ t with intValue := min value (2 ^ 64 - 1), text := spelling start s }, s,
    errs ++ if 2 ^ 64 ≤ value then [(rawAt start, "integer literal too large")] else []⟩

def floatLiteral (hex : Bool) (cleaned : List Nat) (suffix : Option Char) (start s : List Nat)
    (errs : Errors) : Lexed :=
  let r := fromChars hex cleaned
  let t := finish rawAt (if suffix = some 'f' then .floatLiteral else .doubleLiteral) start s
  ⟨{ t with floatValue := r.1, text := spelling start s }, s,
    errs ++ if r.2 then [(rawAt start, "floating-point literal out of range")] else []⟩

def orZero (digits : List Nat) : List Nat := if digits = [] then [cp '0'] else digits

def fractionText (frac : Option (List Nat)) : List Nat :=
  (frac.map fun digits => cp '.' :: orZero digits).getD []

def lexDecimal (start : List Nat) : Lexed :=
  let int := scanDigits rawAt 10 true [] none start
  let frac := scanFraction rawAt 10 int.2.1
  let exp := scanExponent rawAt 'e' frac.2.1
  let errs := int.2.2 ++ frac.2.2 ++ exp.2.2
  let expMalformed := isLetter 'e' (cur frac.2.1) && exp.1.isNone
  let isFloat := frac.1.isSome || exp.1.isSome || expMalformed ||
    isLetter 'f' (cur exp.2.1) || isLetter 'd' (cur exp.2.1)
  let suffix := scanSuffix isFloat exp.2.1
  let s := suffix.2
  if expMalformed then
    let behind := if isSign (cur s.tail) then s.tail.tail else s.tail
    malformed rawAt start behind errs "malformed numeric literal"
  else if isIdentPart (cur s) then malformed rawAt start s errs "malformed numeric literal"
  else if !isFloat then integerLiteral rawAt 10 int.1 (suffix.1 = some 'l') start s errs
  else
    floatLiteral rawAt fromChars false (int.1 ++ fractionText frac.1 ++ exp.1.getD []) suffix.1
      start s errs

def lexHex (start : List Nat) : Lexed :=
  let mant := scanDigits rawAt 16 false [] none (start.drop 2)
  let frac := scanFraction rawAt 16 mant.2.1
  let exp := scanExponent rawAt 'p' frac.2.1
  let errs := mant.2.2 ++ frac.2.2 ++ exp.2.2
  let isFloat := frac.1.isSome || exp.1.isSome
  let suffix := scanSuffix isFloat exp.2.1
  let s := suffix.2
  if mant.1 = [] ∧ frac.1.getD [] = [] ∧ exp.1 = none then
    malformed rawAt start s errs "malformed hexadecimal literal"
  else if isIdentPart (cur s) then malformed rawAt start s errs "malformed numeric literal"
  else if !isFloat then integerLiteral rawAt 16 mant.1 (suffix.1 = some 'l') start s errs
  else
    floatLiteral rawAt fromChars true
      (orZero mant.1 ++ fractionText frac.1 ++ exp.1.getD [cp 'p', cp '0']) suffix.1 start s
      (errs ++ if exp.1 = none
        then [(rawAt start, "hexadecimal floating literal requires a 'p' exponent")] else [])

def skipLong (s : List Nat) : List Nat := if isLetter 'l' (cur s) then s.tail else s

def lexBinary (start : List Nat) : Lexed :=
  let digits := scanDigits rawAt 2 false [] none (start.drop 2)
  let s := skipLong digits.2.1
  if digits.1 = [] ∨ isIdentPart (cur s) then
    malformed rawAt start s digits.2.2 "malformed binary literal"
  else integerLiteral rawAt 2 digits.1 (isLetter 'l' (cur digits.2.1)) start s digits.2.2

/-- The test for a word that goes on stands before the suffix. -/
def lexOctal (start : List Nat) : Lexed :=
  let digits := scanDigits rawAt 8 true [] none start.tail
  if isIdentPart (cur digits.2.1) then
    malformed rawAt start digits.2.1 digits.2.2 "malformed octal literal"
  else
    integerLiteral rawAt 8 digits.1 (isLetter 'l' (cur digits.2.1)) start (skipLong digits.2.1)
      digits.2.2

def lexNumber (start : List Nat) : Lexed :=
  let n := peekCp start 1
  if cur start = cp '0' ∧ isLetter 'x' n then lexHex rawAt fromChars start
  else if cur start = cp '0' ∧ isLetter 'b' n then lexBinary rawAt start
  else if cur start = cp '0' ∧ isDigit n then lexOctal rawAt start
  else lexDecimal rawAt fromChars start

end Runner

/-- The literals of `parsePrimary`. -/
def primaryLiteral (t : Token) : Option Literal :=
  match t.kind with
  | .integerLiteral => some { lit := .int, intValue := .ofNat 64 t.intValue }
  | .longLiteral => some { lit := .long, intValue := .ofNat 64 t.intValue }
  | .floatLiteral => some { lit := .float, floatValue := t.floatValue.toBitVec }
  | .doubleLiteral => some { lit := .double, floatValue := t.floatValue.toBitVec }
  | .characterLiteral => some { lit := .char, intValue := .ofNat 64 t.intValue }
  | .stringLiteral =>
    some { lit := .string, stringValue := (String.fromUTF8? ⟨t.text.toArray⟩).getD "" }
  | .trueKeyword => some { lit := .boolean, intValue := 1 }
  | .falseKeyword => some { lit := .boolean }
  | .nullKeyword => some { lit := .null }
  | _ => none

/-! ## Spellings -/

inductive Radix where
  | decimal | hex | binary | octal
  deriving DecidableEq

def Radix.base : Radix → Nat
  | .decimal => 10
  | .hex => 16
  | .binary => 2
  | .octal => 8

/-- A digit with the number of underscores before it. -/
abbrev Group := Nat × Nat

def underscored (gs : List Group) : List Nat :=
  gs.flatMap fun g => replicate g.1 (cp '_') ++ [g.2]

/-- A legal integer literal.  The zero of an octal one is not in its groups; only there can
underscores lead, and only in a decimal one can no digit follow a zero. -/
structure Numeral where
  radix : Radix
  capital : Bool := false
  head : Group
  tail : List Group
  suffix : Option Char
  digits : ∀ g ∈ head :: tail, isDigitOf radix.base g.2 = true
  lead : radix ≠ .octal → head.1 = 0
  zero : radix = .decimal → head.2 = cp '0' → tail = []
  long : ∀ c ∈ suffix, c = 'l' ∨ c = 'L'

namespace Numeral

variable (n : Numeral)

/-- What stands before the groups. -/
def mark : List Nat :=
  match n.radix with
  | .decimal => []
  | .hex => [cp '0', cp (if n.capital then 'X' else 'x')]
  | .binary => [cp '0', cp (if n.capital then 'B' else 'b')]
  | .octal => [cp '0']

def suffixText (suffix : Option Char) : List Nat := (suffix.map cp).toList

def text : List Nat := n.mark ++ underscored (n.head :: n.tail) ++ suffixText n.suffix

def valueIn (base : Nat) : Nat :=
  Nat.ofDigits base (((n.head :: n.tail).map fun g => digitVal g.2).reverse)

def value : Nat := n.valueIn n.radix.base

def width : Nat := if n.suffix.isSome then 64 else 32

/-- The type holds the value; a negated decimal literal can also be the minimum's. -/
def Fits (negated : Bool) : Prop :=
  if n.radix = .decimal then
    n.value < 2 ^ (n.width - 1) ∨ negated = true ∧ n.value = 2 ^ (n.width - 1)
  else n.value < 2 ^ n.width

instance (negated : Bool) : Decidable (n.Fits negated) := by unfold Fits; infer_instance

/-- The constant loaded for the literal has the bits of the value. -/
def Loads (l : Literal) : Prop :=
  if n.suffix.isSome then
    ∃ imm : BitVec 64, imm.toNat = n.value ∧ ∀ F b,
      lowerLiteral F l b = emitPooled .lconst (·.constLong imm) (.prim .long) b
  else
    ∃ imm : BitVec 32, imm.toNat = n.value ∧ ∀ F b,
      lowerLiteral F l b = emitConst .iconst imm (.prim .int) b

/-- What becomes of the literal: it is read whole and loaded when its type holds it, and
refused when not. -/
def Kept (negated : Bool) (rest : List Nat) (r : Lexed) : Prop :=
  if n.Fits negated then
    r.errs = [] ∧ r.rest = rest ∧ r.token.intValue = n.value ∧
      ∃ l, primaryLiteral r.token = some l ∧ n.Loads l
  else r.errs ≠ []

/-- The text behind the literal does not belong to it. -/
def Ends (rest : List Nat) : Prop :=
  isIdentPart (cur rest) = false ∧ (n.radix ≠ .binary → cur rest ≠ cp '.')

instance (rest : List Nat) : Decidable (n.Ends rest) := inferInstanceAs (Decidable (_ ∧ _))

/-- An octal literal with a digit right behind its zero, and a suffix. -/
def SuffixedOctal : Prop := n.radix = .octal ∧ n.head.1 = 0 ∧ n.suffix.isSome = true

instance : Decidable n.SuffixedOctal := inferInstanceAs (Decidable (_ ∧ _))

/-- The number in the digits, those behind a zero and an underscore taken as decimal. -/
def reading : Nat :=
  n.valueIn (if n.radix = .octal ∧ n.head.1 ≠ 0 then 10 else n.radix.base)

variable {n}

theorem lt_of_fits {negated : Bool} (h : n.Fits negated) : n.value < 2 ^ n.width := by
  have hHalf : 2 ^ (n.width - 1) < 2 ^ n.width :=
    Nat.pow_lt_pow_right (by decide) (by unfold width; split <;> decide)
  unfold Fits at h
  split at h
  · omega
  · exact h

theorem loads (h : n.value < 2 ^ n.width) : n.Loads
    { lit := if n.suffix.isSome then .long else .int, intValue := .ofNat 64 n.value } := by
  unfold width at h
  unfold Loads
  split
  case isTrue hLong =>
    rw [if_pos hLong] at h
    exact ⟨.ofNat 64 n.value, Nat.mod_eq_of_lt h, fun _ _ => rfl⟩
  case isFalse hInt =>
    rw [if_neg hInt] at h
    refine ⟨(BitVec.ofNat 64 n.value).setWidth 32, ?_, fun _ _ => rfl⟩
    rw [BitVec.toNat_setWidth, BitVec.toNat_ofNat]
    omega

end Numeral

/-! ## Scanning -/

variable {rawAt : List Nat → Nat} {fromChars : Bool → List Nat → UInt64 × Bool}

/-- A run of digits ends at the place. -/
def Stops (base : Nat) (s : List Nat) : Prop := cur s ≠ cp '_' ∧ isDigitOf base (cur s) = false

theorem scanDigits_stop {base : Nat} {prevDigit : Bool} {digits s : List Nat}
    (h : Stops base s) : scanDigits rawAt base prevDigit digits none s = (digits, s, []) := by
  cases s with
  | nil => rfl
  | cons c s =>
    have hDigit : ¬ isDigitOf base c = true := by simpa [cur] using h.2
    rw [scanDigits, if_neg (show c ≠ cp '_' from h.1), if_neg hDigit]
    rfl

theorem not_underscore {base c : Nat} (h : isDigitOf base c = true) : c ≠ cp '_' := by
  rintro rfl
  unfold isDigitOf at h
  split_ifs at h <;> exact absurd h (by decide)

theorem scanDigits_group {base : Nat} {prevDigit : Bool} {g : Group} {digits s : List Nat}
    {pending : Option (List Nat)} (hDigit : isDigitOf base g.2 = true)
    (h : prevDigit = true ∨ g.1 = 0) :
    scanDigits rawAt base prevDigit digits pending (replicate g.1 (cp '_') ++ g.2 :: s) =
      scanDigits rawAt base true (digits ++ [g.2]) none s := by
  obtain ⟨k, c⟩ := g
  induction k generalizing pending with
  | zero =>
    show scanDigits rawAt base prevDigit digits pending (c :: s) = _
    rw [scanDigits, if_neg (not_underscore hDigit), if_pos hDigit]
  | succ k ih =>
    obtain rfl : prevDigit = true := h.resolve_right (Nat.succ_ne_zero k)
    rw [replicate_succ, cons_append, scanDigits, if_pos rfl, ih hDigit (.inl rfl)]
    rfl

theorem scanDigits_groups {base : Nat} {gs : List Group} {digits s : List Nat}
    (hDigits : ∀ g ∈ gs, isDigitOf base g.2 = true) (h : Stops base s) :
    scanDigits rawAt base true digits none (underscored gs ++ s) =
      (digits ++ gs.map (·.2), s, []) := by
  induction gs generalizing digits with
  | nil => rw [underscored, flatMap_nil, nil_append, scanDigits_stop h, map_nil, append_nil]
  | cons g gs ih =>
    have hGroup := hDigits g mem_cons_self
    have hRest : ∀ e ∈ gs, isDigitOf base e.2 = true := fun e he =>
      hDigits e (mem_cons_of_mem _ he)
    rw [underscored, flatMap_cons, append_assoc, append_assoc, singleton_append,
      scanDigits_group hGroup (.inl rfl), map_cons,
      append_cons digits g.2 (gs.map _)]
    exact ih hRest

/-- With no digit before it the run cannot begin with an underscore. -/
theorem scanDigits_all {base : Nat} {prevDigit : Bool} {g : Group} {gs : List Group}
    {s : List Nat} (hDigits : ∀ e ∈ g :: gs, isDigitOf base e.2 = true)
    (hLead : prevDigit = true ∨ g.1 = 0) (h : Stops base s) :
    scanDigits rawAt base prevDigit [] none (underscored (g :: gs) ++ s) =
      ((g :: gs).map (·.2), s, []) := by
  rw [underscored, flatMap_cons, append_assoc, append_assoc, singleton_append,
    scanDigits_group (hDigits g mem_cons_self) hLead]
  exact scanDigits_groups (fun e he => hDigits e (mem_cons_of_mem _ he)) h


/-! ## What stands behind the digits -/

theorem isIdentPart_digit {base c : Nat} (h : isDigitOf base c = true) : isIdentPart c = true := by
  simp only [isDigitOf, isHexDigit, isDigit, isOctalDigit, isBinaryDigit] at h
  simp only [isIdentPart, isIdentStart, isAsciiLetter, isDigit, Bool.or_eq_true, decide_eq_true_eq]
  split_ifs at h <;> simp only [decide_eq_true_eq] at h <;> simp only [cp] at h ⊢ <;> grind

theorem isLetter_eq_false {m : Char} {c : Nat} (h : isIdentPart c = false)
    (hm : isIdentPart (cp m) = true ∧ isIdentPart (cp m.toUpper) = true) :
    isLetter m c = false := by
  by_contra hLetter
  rw [Bool.not_eq_false, isLetter, decide_eq_true_eq] at hLetter
  rcases hLetter with rfl | rfl
  · exact absurd hm.1 (by simp [h])
  · exact absurd hm.2 (by simp [h])

/-- The digits end there, a suffix is found and the other letters are not. -/
structure Behind (suffix : Option Char) (rest s : List Nat) : Prop where
  stops : ∀ base, Stops base s
  letters : ∀ m ∈ ['e', 'p', 'f', 'd', 'x', 'b'], isLetter m (cur s) = false
  long : isLetter 'l' (cur s) = suffix.isSome
  skipped : skipLong s = rest
  dot : cur rest ≠ cp '.' → cur s ≠ cp '.'

theorem behind_suffix {suffix : Option Char} {rest : List Nat}
    (hLong : ∀ c ∈ suffix, c = 'l' ∨ c = 'L') (hEnd : isIdentPart (cur rest) = false) :
    Behind suffix rest (Numeral.suffixText suffix ++ rest) := by
  cases suffix with
  | none =>
    have hLetter : isLetter 'l' (cur rest) = false := isLetter_eq_false hEnd (by decide)
    refine ⟨fun base => ⟨?_, ?_⟩, fun m hm => isLetter_eq_false hEnd ?_, hLetter, ?_, id⟩
    · intro h
      rw [Numeral.suffixText, Option.map_none, Option.toList_none, nil_append] at h
      exact absurd hEnd (by rw [h]; decide)
    · by_contra h
      exact absurd (isIdentPart_digit (Bool.not_eq_false _ ▸ h))
        (by simp [Numeral.suffixText, hEnd])
    · revert m
      exact @of_decide_eq_true _ (decidableBAll _ _) rfl
    · exact if_neg (by simp [Numeral.suffixText, hLetter])
  | some c =>
    have hChar : Behind (some c) rest (cp c :: rest) := by
      rcases hLong c rfl with rfl | rfl
      all_goals
        refine ⟨fun base => ⟨?_, ?_⟩, ?_, rfl, rfl, fun _ => ?_⟩
        · show cp _ ≠ cp _
          decide
        · unfold isDigitOf
          split_ifs <;> rfl
        · show ∀ m ∈ _, isLetter m (cp _) = false
          exact @of_decide_eq_true _ (decidableBAll _ _) rfl
        · show cp _ ≠ cp _
          decide
    exact hChar

theorem scanFraction_none {base : Nat} {s : List Nat} (h : cur s ≠ cp '.') :
    scanFraction rawAt base s = (none, s, []) := if_neg h

theorem scanExponent_none {mark : Char} {s : List Nat} (h : isLetter mark (cur s) = false) :
    scanExponent rawAt mark s = (none, s, []) := if_neg (by simp [h])

theorem Behind.scanSuffix {suffix : Option Char} {rest s : List Nat} (h : Behind suffix rest s) :
    scanSuffix false s = (suffix.map fun _ => 'l', rest) := by
  have hSkip := h.skipped
  rw [skipLong, h.long] at hSkip
  simp only [Lexer.scanSuffix, h.letters 'f' (by simp), h.letters 'd' (by simp), h.long]
  cases suffix <;> simp_all

theorem foldl_value (base : Nat) (digits : List Nat) :
    digits.foldl (fun v d => v * base + digitVal d) 0 =
      Nat.ofDigits base (digits.map digitVal).reverse := by
  rw [Nat.ofDigits_eq_foldr, foldr_reverse, foldl_map]
  simp [Nat.mul_comm, Nat.add_comm]

theorem foldl_groups (base : Nat) (gs : List Group) :
    (gs.map (·.2)).foldl (fun v d => v * base + digitVal d) 0 =
      Nat.ofDigits base ((gs.map fun g => digitVal g.2).reverse) := by
  rw [foldl_value, map_map]
  rfl

section Reading

variable {g : Group} {gs : List Group} {suffix : Option Char} {rest : List Nat}

theorem lexDecimal_eq (hDigits : ∀ e ∈ g :: gs, isDigitOf 10 e.2 = true) {s : List Nat}
    (h : Behind suffix rest s) (hEnd : isIdentPart (cur rest) = false)
    (hDot : cur rest ≠ cp '.') :
    lexDecimal rawAt fromChars (underscored (g :: gs) ++ s) =
      integerLiteral rawAt 10 ((g :: gs).map (·.2)) suffix.isSome (underscored (g :: gs) ++ s)
        rest [] := by
  simp only [lexDecimal, scanDigits_all hDigits (.inl rfl) (h.stops 10),
    scanFraction_none (h.dot hDot),
    scanExponent_none (h.letters 'e' (by simp)), h.scanSuffix, h.letters 'e' (by simp),
    h.letters 'f' (by simp), h.letters 'd' (by simp), Option.isSome_none, Bool.false_and,
    Bool.or_self, hEnd]
  cases suffix <;> rfl

theorem lexHex_eq {c : Nat} (hDigits : ∀ e ∈ g :: gs, isDigitOf 16 e.2 = true)
    (hLead : g.1 = 0) {s : List Nat} (h : Behind suffix rest s)
    (hEnd : isIdentPart (cur rest) = false) (hDot : cur rest ≠ cp '.') :
    lexHex rawAt fromChars (cp '0' :: c :: (underscored (g :: gs) ++ s)) =
      integerLiteral rawAt 16 ((g :: gs).map (·.2)) suffix.isSome
        (cp '0' :: c :: (underscored (g :: gs) ++ s)) rest [] := by
  simp only [lexHex, drop_succ_cons, drop_zero,
    scanDigits_all hDigits (.inr hLead) (h.stops 16), scanFraction_none (h.dot hDot),
    scanExponent_none (h.letters 'p' (by simp)), Option.isSome_none, Bool.or_self, h.scanSuffix,
    hEnd]
  cases suffix <;> rfl

theorem lexBinary_eq {c : Nat} (hDigits : ∀ e ∈ g :: gs, isDigitOf 2 e.2 = true)
    (hLead : g.1 = 0) {s : List Nat} (h : Behind suffix rest s)
    (hEnd : isIdentPart (cur rest) = false) :
    lexBinary rawAt (cp '0' :: c :: (underscored (g :: gs) ++ s)) =
      integerLiteral rawAt 2 ((g :: gs).map (·.2)) suffix.isSome
        (cp '0' :: c :: (underscored (g :: gs) ++ s)) rest [] := by
  simp only [lexBinary, drop_succ_cons, drop_zero,
    scanDigits_all hDigits (.inr hLead) (h.stops 2), h.skipped, h.long, hEnd]
  rfl

theorem lexOctal_eq (hDigits : ∀ e ∈ g :: gs, isDigitOf 8 e.2 = true) {s : List Nat}
    (h : Behind none rest s) (hEnd : isIdentPart (cur rest) = false) :
    lexOctal rawAt (cp '0' :: (underscored (g :: gs) ++ s)) =
      integerLiteral rawAt 8 ((g :: gs).map (·.2)) false
        (cp '0' :: (underscored (g :: gs) ++ s)) rest [] := by
  have hSkip := h.skipped
  rw [skipLong, h.long] at hSkip
  obtain rfl : s = rest := hSkip
  simp only [lexOctal, tail_cons, scanDigits_all hDigits (.inl rfl) (h.stops 8), h.skipped,
    h.long, hEnd]
  rfl

theorem lexOctal_suffix (hDigits : ∀ e ∈ g :: gs, isDigitOf 8 e.2 = true) {s : List Nat}
    (h : Behind suffix rest s) (hSome : suffix.isSome = true) :
    (lexOctal rawAt (cp '0' :: (underscored (g :: gs) ++ s))).errs ≠ [] := by
  have hPart : isIdentPart (cur s) = true := by
    by_contra hNot
    have hLetter := isLetter_eq_false (m := 'l') (Bool.not_eq_true _ ▸ hNot) (by decide)
    exact absurd (h.long.trans hSome) (by simp [hLetter])
  simp only [lexOctal, tail_cons, scanDigits_all hDigits (.inl rfl) (h.stops 8), hPart, if_true]
  exact append_ne_nil_of_right_ne_nil _ (cons_ne_nil _ _)

end Reading

theorem isLetter_digit {m : Char} {c : Nat} (h : isDigit c = true)
    (hm : isDigit (cp m) = false ∧ isDigit (cp m.toUpper) = false) : isLetter m c = false := by
  by_contra hLetter
  rw [Bool.not_eq_false, isLetter, decide_eq_true_eq] at hLetter
  rcases hLetter with rfl | rfl
  · exact absurd h (by simp [hm.1])
  · exact absurd h (by simp [hm.2])

theorem isDigit_octal {c : Nat} (h : isDigitOf 8 c = true) : isDigit c = true := by
  simp only [isDigitOf, isOctalDigit, isDigit, cp] at h ⊢
  grind

theorem lexNumber_decimal {s : List Nat} (h : cur s = cp '0' →
      isLetter 'x' (peekCp s 1) = false ∧ isLetter 'b' (peekCp s 1) = false ∧
        isDigit (peekCp s 1) = false) :
    lexNumber rawAt fromChars s = lexDecimal rawAt fromChars s := by
  unfold lexNumber
  by_cases hCur : cur s = cp '0'
  · simp [h hCur]
  · simp [hCur]

theorem lexNumber_octal {c : Nat} {s : List Nat} (h : isDigit c = true) :
    lexNumber rawAt fromChars (cp '0' :: c :: s) = lexOctal rawAt (cp '0' :: c :: s) := by
  have hx : isLetter 'x' c = false := isLetter_digit h (by decide)
  have hb : isLetter 'b' c = false := isLetter_digit h (by decide)
  simp [lexNumber, peekCp, cur, hx, hb, h]

/-- Which of the radices is taken. -/
theorem lexNumber_reads (n : Numeral) {rest : List Nat} (hEnds : n.Ends rest) :
    (n.SuffixedOctal → (lexNumber rawAt fromChars (n.text ++ rest)).errs ≠ []) ∧
    (¬ n.SuffixedOctal → ∃ base digits,
      lexNumber rawAt fromChars (n.text ++ rest) =
        integerLiteral rawAt base digits n.suffix.isSome (n.text ++ rest) rest [] ∧
      digits.foldl (fun v d => v * base + digitVal d) 0 = n.reading) := by
  obtain ⟨radix, capital, ⟨k, c⟩, gs, suffix, hDigits, hLead, hZero, hLong⟩ := n
  obtain ⟨hEnd, hDot⟩ := hEnds
  have h := behind_suffix hLong hEnd
  simp only [Numeral.text, append_assoc]
  generalize Numeral.suffixText suffix ++ rest = s at h
  have hc := hDigits (k, c) mem_cons_self
  cases radix with
  | decimal =>
    obtain rfl : k = 0 := hLead (by decide)
    refine ⟨(nomatch ·.1), fun _ => ⟨10, _, ?_, foldl_groups 10 ((0, c) :: gs)⟩⟩
    refine Eq.trans (lexNumber_decimal fun hCur => ?_)
      (lexDecimal_eq hDigits h hEnd (hDot nofun))
    obtain rfl : gs = [] := hZero rfl hCur
    exact ⟨h.letters 'x' (by simp), h.letters 'b' (by simp), (h.stops 10).2⟩
  | hex =>
    refine ⟨(nomatch ·.1), fun _ => ⟨16, _, ?_, foldl_groups 16 ((k, c) :: gs)⟩⟩
    cases capital
    all_goals exact lexHex_eq hDigits (hLead (by decide)) h hEnd (hDot nofun)
  | binary =>
    refine ⟨(nomatch ·.1), fun _ => ⟨2, _, ?_, foldl_groups 2 ((k, c) :: gs)⟩⟩
    cases capital
    all_goals exact lexBinary_eq hDigits (hLead (by decide)) h hEnd
  | octal =>
    have hDecimal : ∀ g ∈ (k, c) :: gs, isDigitOf 10 g.2 = true := fun g hg =>
      isDigit_octal (hDigits g hg)
    cases k with
    | zero =>
      have hOctal : lexNumber rawAt fromChars
          (cp '0' :: (underscored ((0, c) :: gs) ++ s)) =
          lexOctal rawAt (cp '0' :: (underscored ((0, c) :: gs) ++ s)) :=
        lexNumber_octal (hDecimal _ mem_cons_self)
      refine ⟨fun hSuffix => ?_, fun hNot => ⟨8, _, ?_, foldl_groups 8 ((0, c) :: gs)⟩⟩
      · exact fun hErrs => lexOctal_suffix hDigits h hSuffix.2.2 (hOctal ▸ hErrs)
      · cases suffix with
        | none => exact hOctal.trans (lexOctal_eq hDigits h hEnd)
        | some l => exact absurd ⟨rfl, rfl, rfl⟩ hNot
    | succ k =>
      refine ⟨fun hSuffix => absurd hSuffix.2.1 (Nat.succ_ne_zero k), fun _ =>
        ⟨10, cp '0' :: c :: gs.map (·.2), ?_, foldl_groups 10 ((k + 1, c) :: gs)⟩⟩
      have hZeros : ∀ g ∈ (0, cp '0') :: (k + 1, c) :: gs, isDigitOf 10 g.2 = true :=
        forall_mem_cons.mpr ⟨rfl, hDecimal⟩
      refine Eq.trans (lexNumber_decimal fun _ => ?_) (lexDecimal_eq hZeros h hEnd (hDot nofun))
      show isLetter 'x' (cp '_') = false ∧ isLetter 'b' (cp '_') = false ∧
        isDigit (cp '_') = false
      decide

theorem primaryLiteral_integer {base : Nat} {digits start s : List Nat} {long : Bool}
    {errs : Errors} :
    let t := (integerLiteral rawAt base digits long start s errs).token
    primaryLiteral t =
      some { lit := if long then .long else .int, intValue := .ofNat 64 t.intValue } := by
  cases long <;> rfl

/-- What is loaded is what the digits are read as. -/
theorem kept_iff (n : Numeral) {negated : Bool} {base : Nat} {digits start rest : List Nat}
    (hValue : digits.foldl (fun v d => v * base + digitVal d) 0 = n.reading) :
    n.Kept negated rest
        (integerLiteral rawAt base digits n.suffix.isSome start rest []) ↔
      if n.Fits negated then n.reading = n.value else 2 ^ 64 ≤ n.reading := by
  have hErrs : (integerLiteral rawAt base digits n.suffix.isSome start rest []).errs = [] ↔
      ¬ 2 ^ 64 ≤ n.reading := by simp [integerLiteral, hValue]
  unfold Numeral.Kept
  split
  case isFalse => rw [Ne, hErrs, not_not]
  case isTrue hFits =>
    have hSmall : n.value < 2 ^ n.width := n.lt_of_fits hFits
    have hWidth : n.width ≤ 64 := by unfold Numeral.width; split <;> decide
    have hBound : n.value < 2 ^ 64 :=
      hSmall.trans_le (Nat.pow_le_pow_right (by decide) hWidth)
    have hInt : (integerLiteral rawAt base digits n.suffix.isSome start rest []).token.intValue =
        min n.reading (2 ^ 64 - 1) := by simp [integerLiteral, hValue]
    constructor
    · rintro ⟨hNone, -, hTok, -⟩
      have := hErrs.mp hNone
      omega
    · intro hEq
      refine ⟨hErrs.mpr (by omega), rfl, by omega, ?_⟩
      refine ⟨_, primaryLiteral_integer, ?_⟩
      rw [hInt, show min n.reading (2 ^ 64 - 1) = n.value by omega]
      exact Numeral.loads hSmall

/-- A decimal literal beyond its type is taken up to 2 to the 64th, an octal one is refused for
its suffix, and behind a zero and an underscore the digits are decimal ones. -/
theorem integer_literal_kept (rawAt : List Nat → Nat)
    (fromChars : Bool → List Nat → UInt64 × Bool) (n : Numeral) (negated : Bool)
    (rest : List Nat) (hEnds : n.Ends rest) :
    n.Kept negated rest (lexNumber rawAt fromChars (n.text ++ rest)) ↔
      if n.Fits negated then ¬ n.SuffixedOctal ∧ n.reading = n.value
      else n.SuffixedOctal ∨ 2 ^ 64 ≤ n.reading := by
  obtain ⟨hOctal, hRead⟩ := @lexNumber_reads rawAt fromChars n rest hEnds
  by_cases h : n.SuffixedOctal
  · have hErrs := hOctal h
    unfold Numeral.Kept
    split
    · exact ⟨fun hKept => absurd hKept.1 hErrs, fun hNot => absurd h hNot.1⟩
    · exact ⟨fun _ => .inl h, fun _ => hErrs⟩
  · obtain ⟨base, digits, hEq, hValue⟩ := hRead h
    rw [hEq, kept_iff n hValue]
    simp only [h, not_false_eq_true, true_and, false_or]

/-- `0x7F_FFL`. -/
theorem integer_literal_kept_hex :
    let n : Numeral :=
      { radix := .hex, head := (0, cp '7'), tail := [(0, cp 'F'), (1, cp 'F'), (0, cp 'F')],
        suffix := some 'L', digits := by decide, lead := fun _ => rfl, zero := nofun,
        long := by simp }
    n.Kept false [cp ';'] (lexNumber (fun _ => 0) (fun _ _ => (0, false)) (n.text ++ [cp ';'])) :=
  (integer_literal_kept _ _ _ false [cp ';'] (by decide)).mpr
    ((if_pos (by decide)).mpr ⟨by decide, rfl⟩)

/-- 2 to the 31st. -/
def tooLarge : Numeral where
  radix := .decimal
  head := (0, cp '2')
  tail := ['1', '4', '7', '4', '8', '3', '6', '4', '8'].map fun c => (0, cp c)
  suffix := none
  digits := by decide
  lead := fun _ => rfl
  zero := fun _ h => absurd h (by decide)
  long := nofun

/-- It is accepted and loaded as the smallest number. -/
theorem tooLarge_not_kept : ¬ tooLarge.Kept false [cp ';']
    (lexNumber (fun _ => 0) (fun _ _ => (0, false)) (tooLarge.text ++ [cp ';'])) := by
  have hFits : ¬ tooLarge.Fits false := by decide
  rw [Numeral.Kept, if_neg hFits, not_not]
  decide

end B2Compiler.Frontend.Lexer
