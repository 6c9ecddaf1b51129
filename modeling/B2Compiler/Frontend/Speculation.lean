import Mathlib.Algebra.Order.Ring.Nat
import B2Compiler.Frontend.Token
import Mathlib.Algebra.BigOperators.Group.List.Basic

/-!
# Speculative parsing

The parser holds the token vector and a cursor.  Looking ahead it runs a piece of itself on
trial and puts the cursor back afterwards.  An attempt is whatever such a piece may do: look
around, advance, close type arguments, attempt something else.  Reading outside the vector
is undefined and answers `none`.
-/

namespace B2Compiler.Frontend

open List

/-! ## The token stream -/

structure Parser where
  toks : List Token
  pos : Nat := 0
  trial : Bool := false

namespace Parser

variable {p q : Parser} {t : Token}

def cur (p : Parser) : Option Token := p.toks[p.pos]?

def curKind (p : Parser) : Option Tok := p.cur.map (·.kind)

def peek (p : Parser) (n : Nat) : Option Token :=
  if p.pos + n < p.toks.length then p.toks[p.pos + n]? else p.toks.getLast?

def advance (p : Parser) : Option (Token × Parser) := do
  let t ← p.cur
  return (t, if t.kind ≠ .endOfFile then { p with pos := p.pos + 1 } else p)

/-- What stays of a token when a `>` is cut off its front, and how long that is. -/
def behindGreater : Tok → Option (Tok × Nat)
  | .greaterGreater => some (.greater, 1)
  | .greaterGreaterEqual => some (.greaterEqual, 2)
  | .greaterGreaterGreater => some (.greaterGreater, 2)
  | .greaterGreaterGreaterEqual => some (.greaterGreaterEqual, 3)
  | .greaterEqual => some (.equal, 1)
  | _ => none

def splitToken (p : Parser) (t : Token) (rest : Tok × Nat) : Parser :=
  { p with toks := p.toks.take p.pos ++ { kind := .greater, offset := t.offset, length := 1 } ::
      { kind := rest.1, offset := t.offset + 1, length := rest.2 } :: p.toks.drop (p.pos + 1) }

def expectGreater (p : Parser) : Option (Token × Parser) := do
  let t ← p.cur
  if t.kind = .greater then p.advance
  else match behindGreater t.kind with
    | some rest => (p.splitToken t rest).advance
    | none => return (t, p)

structure Checkpoint where
  pos : Nat
  tokenCount : Nat

def mark (p : Parser) : Checkpoint := ⟨p.pos, p.toks.length⟩

def reset (p : Parser) (cp : Checkpoint) : Parser :=
  { p with
    pos := cp.pos
    toks := if p.toks.length > cp.tokenCount then p.toks.take cp.tokenCount else p.toks }

end Parser

inductive Attempt where
  | done (result : Bool)
  | look (next : Parser → Attempt)
  | advance (next : Token → Attempt)
  | expectGreater (next : Token → Attempt)
  | speculate (f : Attempt) (next : Bool → Attempt)

open Parser

namespace Attempt

variable {f : Attempt} {p q : Parser} {r : Bool}

def run : Attempt → Parser → Option (Bool × Parser)
  | done r, p => some (r, p)
  | look next, p => (next p).run p
  | advance next, p => do
      let (t, q) ← p.advance
      (next t).run q
  | expectGreater next, p => do
      let (t, q) ← p.expectGreater
      (next t).run q
  | speculate f next, p => do
      let (r, q) ← f.run { p with trial := true }
      (next r).run ({ q with trial := p.trial }.reset p.mark)

/-- What an attempt answers on the tokens as they are; nothing if it asks for the `>` of a
longer token or for a token behind the last one. -/
def reading : Attempt → Parser → Option Bool
  | done r, _ => some r
  | look next, p => (next p).reading p
  | advance next, p => do
      let (t, q) ← p.advance
      (next t).reading q
  | expectGreater next, p => do
      let t ← p.cur
      if (behindGreater t.kind).isSome then none
      else
        let (t, q) ← p.expectGreater
        (next t).reading q
  | speculate f next, p => do
      let r ← f.reading { p with trial := true }
      (next r).reading p

end Attempt

def Parser.speculate (p : Parser) (f : Attempt) : Option (Bool × Parser) := do
  let (r, q) ← f.run { p with trial := true }
  return (r, { q with trial := p.trial }.reset p.mark)

/-! ## What an attempt leaves behind -/

namespace Parser

/-- How often a token can still be split. -/
def splits : Tok → Nat
  | .greaterEqual | .greaterGreater => 1
  | .greaterGreaterEqual | .greaterGreaterGreater => 2
  | .greaterGreaterGreaterEqual => 3
  | _ => 0

def weight (ts : List Token) : Nat := (ts.map fun t => splits t.kind).sum

theorem weight_cons (t : Token) (ts : List Token) : weight (t :: ts) = splits t.kind + weight ts :=
  rfl

theorem weight_append (ts us : List Token) : weight (ts ++ us) = weight ts + weight us := by
  simp [weight]

theorem weight_take_le (ts : List Token) (n : Nat) : weight (ts.take n) ≤ weight ts := by
  conv_rhs => rw [← take_append_drop n ts, weight_append]
  exact Nat.le_add_right _ _

variable {p q : Parser} {t : Token}

theorem advance_keeps (h : p.advance = some (t, q)) : q.toks = p.toks ∧ q.trial = p.trial := by
  obtain ⟨u, -, h⟩ := Option.bind_eq_some_iff.mp h
  cases h
  split <;> exact ⟨rfl, rfl⟩

theorem splits_behindGreater {k : Tok} {rest : Tok × Nat} (h : behindGreater k = some rest) :
    splits k = splits rest.1 + 1 := by
  cases k <;> cases h <;> rfl

theorem weight_splitToken {rest : Tok × Nat} (ht : p.cur = some t)
    (h : behindGreater t.kind = some rest) :
    weight (p.splitToken t rest).toks < weight p.toks := by
  obtain ⟨hlt, rfl⟩ := List.getElem?_eq_some_iff.mp ht
  have hs := splits_behindGreater h
  have hp : p.toks = p.toks.take p.pos ++ p.toks[p.pos] :: p.toks.drop (p.pos + 1) := by simp
  have hw := congrArg weight hp
  rw [weight_append, weight_cons] at hw
  rw [splitToken, weight_append, weight_cons, weight_cons]
  show weight (p.toks.take p.pos) + (0 + (splits rest.1 + weight (p.toks.drop (p.pos + 1)))) < _
  omega

/-- Closing type arguments leaves the tokens alone unless it splits one. -/
theorem expectGreater_cases (h : p.expectGreater = some (t, q)) :
    (∃ u, p.cur = some u ∧ (behindGreater u.kind).isSome ∧ weight q.toks < weight p.toks) ∨
      (∃ u, p.cur = some u ∧ behindGreater u.kind = none ∧ q.toks = p.toks ∧
        q.trial = p.trial) := by
  obtain ⟨u, hu, h⟩ := Option.bind_eq_some_iff.mp h
  split at h
  case isTrue hk =>
    exact .inr ⟨u, hu, by rw [hk]; rfl, advance_keeps h⟩
  case isFalse =>
    split at h
    case h_1 rest hr =>
      refine .inl ⟨u, hu, by rw [hr]; rfl, ?_⟩
      rw [(advance_keeps h).1]
      exact weight_splitToken hu hr
    case h_2 hr =>
      obtain ⟨rfl, rfl⟩ := Prod.mk.inj (Option.some.inj h)
      exact .inr ⟨_, hu, hr, rfl, rfl⟩

theorem reset_mark {trial : Bool} (h : q.toks = p.toks) (hTrial : p.trial = trial) :
    { q with trial }.reset p.mark = p := by
  cases p
  cases q
  cases h
  cases hTrial
  simp [reset, mark]

theorem weight_reset_le (cp : Checkpoint) : weight (p.reset cp).toks ≤ weight p.toks := by
  unfold reset
  split
  · exact weight_take_le _ _
  · exact Nat.le_refl _

end Parser

namespace Attempt

variable {f : Attempt} {p q : Parser} {r : Bool}

/-- An attempt that splits nothing only moves the cursor. -/
theorem run_of_reading (f : Attempt) {p : Parser} {r : Bool} (h : f.reading p = some r) :
    ∃ q, f.run p = some (r, q) ∧ q.toks = p.toks ∧ q.trial = p.trial := by
  induction f generalizing p r with
  | done b => cases h; exact ⟨p, rfl, rfl, rfl⟩
  | look next ih => exact ih p h
  | advance next ih =>
    obtain ⟨⟨t, q⟩, hq, h⟩ := Option.bind_eq_some_iff.mp h
    obtain ⟨q', hRun, hToks, hTrial⟩ := ih t h
    have hk := advance_keeps hq
    exact ⟨q', by simp [run, hq, hRun], hToks.trans hk.1, hTrial.trans hk.2⟩
  | expectGreater next ih =>
    obtain ⟨u, hu, h⟩ := Option.bind_eq_some_iff.mp h
    split at h
    · cases h
    case isFalse hGlued =>
      obtain ⟨⟨t, q⟩, hq, h⟩ := Option.bind_eq_some_iff.mp h
      obtain ⟨q', hRun, hToks, hTrial⟩ := ih t h
      rcases expectGreater_cases hq with ⟨v, hv, hs, -⟩ | ⟨v, -, -, hk⟩
      · cases hu.symm.trans hv
        exact absurd hs hGlued
      · exact ⟨q', by simp [run, hq, hRun], hToks.trans hk.1, hTrial.trans hk.2⟩
  | speculate f next ihf ih =>
    obtain ⟨b, hb, h⟩ := Option.bind_eq_some_iff.mp h
    obtain ⟨q, hRun, hToks, -⟩ := ihf hb
    obtain ⟨q', hNext, hRest⟩ := ih b h
    refine ⟨q', ?_, hRest⟩
    simp only [run, hRun, Option.bind_eq_bind, Option.bind_some]
    rw [reset_mark (p := p) hToks rfl, hNext]

/-- An attempt never makes the tokens heavier, and leaves their weight alone only where it
splits nothing. -/
theorem weight_run (f : Attempt) {p q : Parser} {r : Bool} (h : f.run p = some (r, q)) :
    weight q.toks ≤ weight p.toks ∧ (weight q.toks = weight p.toks → f.reading p = some r) := by
  induction f generalizing p q r with
  | done b => cases h; exact ⟨Nat.le_refl _, fun _ => rfl⟩
  | look next ih => exact ih p h
  | advance next ih =>
    obtain ⟨⟨t, q'⟩, hq, h⟩ := Option.bind_eq_some_iff.mp h
    have hk := ih t (q := q) h
    rw [(advance_keeps hq).1] at hk
    exact ⟨hk.1, fun e => by simp [reading, hq, hk.2 e]⟩
  | expectGreater next ih =>
    obtain ⟨⟨t, q'⟩, hq, h⟩ := Option.bind_eq_some_iff.mp h
    replace h : (next t).run q' = some (r, q) := h
    have hk := ih t h
    rcases expectGreater_cases hq with ⟨u, -, -, hlt⟩ | ⟨u, hu, hNone, hToks, -⟩
    · exact ⟨by omega, by omega⟩
    · rw [hToks] at hk
      exact ⟨hk.1, fun e => by simp [reading, hu, hNone, hq, hk.2 e]⟩
  | speculate f next ihf ih =>
    obtain ⟨⟨b, q'⟩, hq, h⟩ := Option.bind_eq_some_iff.mp h
    replace h : (next b).run ({ q' with trial := p.trial }.reset p.mark) = some (r, q) := h
    have hf := ihf hq
    have hk := ih b h
    have hReset := weight_reset_le (p := { q' with trial := p.trial }) p.mark
    dsimp only at hf hReset
    refine ⟨by omega, fun e => ?_⟩
    have hRead := hf.2 (by omega)
    obtain ⟨q'', hRun, hToks, -⟩ := run_of_reading f hRead
    cases hq.symm.trans hRun
    rw [reset_mark (p := p) hToks rfl] at hk
    simp [reading, hRead, hk.2 e]

end Attempt

/-- A rolled-back attempt leaves the parser as it was exactly when, on the tokens as they
are, it never asks for the `>` of a longer token. -/
theorem speculate_restores_iff (p : Parser) (f : Attempt) :
    (∃ r, p.speculate f = some (r, p)) ↔ (f.reading { p with trial := true }).isSome := by
  rw [Option.isSome_iff_exists]
  constructor
  · rintro ⟨r, h⟩
    obtain ⟨⟨b, q⟩, hq, h⟩ := Option.bind_eq_some_iff.mp h
    obtain ⟨rfl, hp⟩ := Prod.mk.inj (Option.some.inj h)
    have hw := f.weight_run hq
    have hReset := weight_reset_le (p := { q with trial := p.trial }) p.mark
    rw [hp] at hReset
    dsimp only at hw hReset
    exact ⟨b, hw.2 (by omega)⟩
  · rintro ⟨r, h⟩
    obtain ⟨q, hRun, hToks, -⟩ := f.run_of_reading h
    exact ⟨r, by simp [speculate, hRun, reset_mark (p := p) hToks rfl]⟩

/-! ## Explicit type arguments -/

namespace Attempt

def atKind (k : Tok) (yes no : Attempt) : Attempt :=
  look fun p => if p.curKind = some k then yes else no

def primitiveTok : Tok → Bool
  | .booleanKeyword | .byteKeyword | .shortKeyword | .charKeyword | .intKeyword | .longKeyword
  | .floatKeyword | .doubleKeyword | .voidKeyword => true
  | _ => false

/-- `parseAnnotations`; how one annotation is read is left open. -/
def parseAnnotations (annotate : Attempt → Attempt) : Nat → Attempt → Attempt
  | 0, _ => done false
  | n + 1, next => look fun p =>
    if p.curKind = some .at_ ∧ (p.peek 1).map (·.kind) ≠ some .interfaceKeyword then
      annotate (parseAnnotations annotate n next)
    else next

def dimensions : Nat → Attempt → Attempt
  | 0, _ => done false
  | n + 1, next => look fun p =>
    if p.curKind = some .leftBracket ∧ (p.peek 1).map (·.kind) = some .rightBracket then
      advance fun _ => advance fun _ => dimensions n next
    else next

mutual

/-- `parseType`, and then what comes next, told whether there was a type. -/
def parseType (annotate : Attempt → Attempt) : Nat → (Bool → Attempt) → Attempt
  | 0, _ => done false
  | n + 1, next => parseAnnotations annotate n <| look fun p =>
    if (p.curKind.map primitiveTok).getD false then
      advance fun _ => dimensions n (next true)
    else if p.curKind = some .identifier then
      segments annotate n (dimensions n (next true))
    else next false

def segments (annotate : Attempt → Attempt) : Nat → Attempt → Attempt
  | 0, _ => done false
  | n + 1, next =>
    let more := look fun p =>
      if p.curKind = some .dot ∧ (p.peek 1).map (·.kind) = some .identifier then
        advance fun _ => segments annotate n next
      else next
    advance fun _ => atKind .less
      (advance fun _ => parseTypeArgumentsInto annotate n (expectGreater fun _ => more)) more

def parseTypeArgumentsInto (annotate : Attempt → Attempt) : Nat → Attempt → Attempt
  | 0, _ => done false
  | n + 1, next => atKind .greater next (typeArguments annotate n next)

def typeArguments (annotate : Attempt → Attempt) : Nat → Attempt → Attempt
  | 0, _ => done false
  | n + 1, next =>
    let more := atKind .comma (advance fun _ => typeArguments annotate n next) next
    let bound := advance fun _ => parseType annotate n fun _ => more
    atKind .question
      (advance fun _ => atKind .extendsKeyword bound (atKind .superKeyword bound more))
      (parseType annotate n fun ok => if ok then more else next)

end

/-- What a name followed by `<` tries first: a generic call or a method reference. -/
def explicitTypeArguments (annotate : Attempt → Attempt) (n : Nat) : Attempt :=
  advance fun _ => parseTypeArgumentsInto annotate n <| expectGreater fun _ =>
    atKind .leftParen (done true) (atKind .colonColon (done true) (done false))

end Attempt

/-- `x < y >> 1`, the cursor behind `x`. -/
def shiftComparison : Parser where
  toks :=
    [{ kind := .identifier, offset := 0, length := 1 }, { kind := .less, offset := 2, length := 1 },
      { kind := .identifier, offset := 4, length := 1 },
      { kind := .greaterGreater, offset := 6, length := 2 },
      { kind := .integerLiteral, offset := 9, length := 1, intValue := 1 },
      { kind := .endOfFile, offset := 10 }]
  pos := 1

/-- The shift stays split and the end of the file is lost. -/
theorem not_speculate_restores : (shiftComparison.speculate (.explicitTypeArguments id 8)).map
        (fun s => (s.1, s.2.toks.map (·.kind))) =
      some (false, [.identifier, .less, .identifier, .greater, .greater, .integerLiteral]) ∧
      ¬ ∃ r, shiftComparison.speculate (.explicitTypeArguments id 8) =
        some (r, shiftComparison) := by
  have hKinds : (shiftComparison.speculate (.explicitTypeArguments id 8)).map
      (fun s => (s.1, s.2.toks.map (·.kind))) =
      some (false, [.identifier, .less, .identifier, .greater, .greater, .integerLiteral]) := by
    decide
  refine ⟨hKinds, ?_⟩
  rintro ⟨r, h⟩
  rw [h] at hKinds
  cases hKinds

end B2Compiler.Frontend
