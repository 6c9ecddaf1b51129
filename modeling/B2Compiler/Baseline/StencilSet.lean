import B2Compiler.Baseline.PlanBuilder

/-!
# Stencil descriptors and the stencil set

What the plan builder knows of a stencil: its identity, the instructions it serves,
the holes to be patched and the flags of its effects.  A set is a vector of
descriptors whose entries that carry a pattern are sorted by their first opcode, and
the candidates of an opcode are found by two binary searches.  Sets need not keep to
that layout: nothing below assumes it, and a search in a set that violates it is
only a search that finds less.
-/

namespace B2Compiler.Baseline

open Rbc

/-! ## Descriptors -/

inductive StencilCategory where
  | opcode | superinstruction | call | inlineCache | guard | deopt | runtimeHelper | nanBox
  | vector
  deriving DecidableEq, Repr

inductive PatchKind where
  | imm8 | imm16 | imm32 | imm64 | branchRel8 | branchRel32 | callRel32 | absTarget64
  | slotOffset | fieldOffset | klassId | methodId | callSiteId | deoptId | icStubAddr
  | constPoolIndex | runtimeHelperId
  deriving DecidableEq, Repr

/-- Where the value of a hole comes from. -/
inductive PatchSource where
  | none | insDst | insA | insB | insImm | frameSlot | cpIndex | branchTarget | deoptIdSource
  | runtimeField | runtimeClass | runtimeMethod | runtimeIcStub | runtimeHelper
  deriving DecidableEq, Repr

/-- One declared hole; `width` counts bytes. -/
structure PatchSiteDesc where
  kind : PatchKind := .imm32
  width : Nat := 4
  source : PatchSource := .none
  deriving DecidableEq, Repr

inductive StencilFlag where
  | readsHeap | writesHeap | canCall | canTrap | canAllocate | canBranch | isSafepoint | hasDeopt
  | hasIc | writesResult | readsFrame | quickenedOnly
  deriving DecidableEq, Repr

inductive StencilAvailability where
  | available | needsRuntimeFeature
  deriving DecidableEq, Repr

/-- The descriptor of a stencil.  The pattern and the holes are lists, so that their
lengths are the counts the source keeps beside its arrays. -/
structure Stencil where
  id : Nat := 0
  name : String := ""
  category : StencilCategory := .opcode
  pattern : List PatternStep := []
  flags : List StencilFlag := []
  availability : StencilAvailability := .available
  dstSkipMask : BitVec 8 := 0
  patches : List PatchSiteDesc := []
  nominalSize : BitVec 32 := 0
  deriving DecidableEq, Repr

/-- The opcode a pattern starts with.  The array behind an empty pattern holds `nop`. -/
def Stencil.firstOp (s : Stencil) : Op :=
  match s.pattern with
  | [] => .nop
  | step :: _ => step.op

def hasFlag (v : List StencilFlag) (f : StencilFlag) : Bool := v.contains f

/-- What `matchSuper` reads of a descriptor: pattern and mask.  It does not look at
the name. -/
def Stencil.window (s : Stencil) : StencilDesc := ⟨.iincGoto, s.pattern, s.dstSkipMask⟩

/-! ## The set -/

/-- Format identity and version of a set. -/
structure StencilSetVersion where
  magic : Nat := 0
  version : Nat := 1
  targetArch : Nat := 0
  abiHash : Nat := 0
  deriving DecidableEq, Repr

structure StencilSet where
  version : StencilSetVersion := {}
  stencils : List Stencil := []
  deriving DecidableEq, Repr

/-- The binary search of the source: the interval `[lo, hi)` is halved until it is
empty.  Every round shrinks it, so its length is fuel enough. -/
def bisect (below : Nat → Bool) : Nat → Nat → Nat → Nat
  | 0, lo, _ => lo
  | fuel + 1, lo, hi =>
    if lo < hi then
      let mid := lo + (hi - lo) / 2
      if below mid then bisect below fuel (mid + 1) hi else bisect below fuel lo mid
    else lo

/-- Where the predicate changes, the search finds it: it holds below `r` and not from
`r` on. -/
theorem bisect_eq {below : Nat → Bool} {r : Nat} (hbelow : ∀ i, i < r → below i = true)
    (habove : ∀ i, r ≤ i → below i = false) {fuel lo hi : Nat} (hfuel : hi - lo ≤ fuel)
    (hlo : lo ≤ r) (hhi : r ≤ hi) : bisect below fuel lo hi = r := by
  induction fuel generalizing lo hi with
  | zero =>
    rw [bisect]
    omega
  | succ fuel ih =>
    rw [bisect]
    split
    · dsimp only
      split
      · rename_i hmid
        by_cases hr : lo + (hi - lo) / 2 < r
        · exact ih (by omega) (by omega) hhi
        · rw [habove _ (by omega)] at hmid
          cases hmid
      · rename_i hmid
        by_cases hr : lo + (hi - lo) / 2 < r
        · exact absurd (hbelow _ hr) hmid
        · exact ih (by omega) hlo (by omega)
    · omega

namespace StencilSet

/-- The descriptor of an id.  The source indexes its vector; outside of it the audit
of the plan refuses. -/
def desc (set : StencilSet) (id : Nat) : Stencil := set.stencils.getD id {}

/-- The stencils whose pattern starts with `op`. -/
def candidates (set : StencilSet) (op : Op) : List Stencil :=
  let n := set.stencils.length
  if n ≤ 1 then []
  else
    let m := bisect (fun i => !(set.desc i).pattern.isEmpty) n 1 n
    let blo := bisect (fun i => decide ((set.desc i).firstOp.ctorIdx < op.ctorIdx)) n 1 m
    ((set.stencils.take m).drop blo).takeWhile fun s => s.firstOp = op

end StencilSet

def isQuickenedFieldOp (op : Op) : Bool := op = .getfieldQuick ∨ op = .putfieldQuick

def isCpResolvingSig (sig : Sig) : Bool :=
  sig = .regCp ∨ sig = .regRegCp ∨ sig = .regRegRegCp ∨ sig = .regCpBranch

/-- Does a step with this opcode supply a hole of the given source? -/
def stepSuppliesSource (src : PatchSource) (op : Op) : Bool :=
  let sig := (info op).sig
  match src with
  | .insDst | .insA | .insB => true
  | .insImm => sig = .regImm ∨ sig = .callQuick ∨ isQuickenedFieldOp op
  | .frameSlot => sig = .regSlot ∨ sig = .slotReg
  | .cpIndex => isCpResolvingSig sig && !isQuickenedFieldOp op
  | .branchTarget => sig = .branch ∨ sig = .regBranch ∨ sig = .regRegBranch
  | .deoptIdSource => false
  | .runtimeField => op = .getfield ∨ op = .putfield ∨ op = .getstatic ∨ op = .putstatic
  | .runtimeClass =>
    op = .new ∨ op = .checkcast ∨ op = .instanceof ∨ op = .anewArray ∨ op = .multianewarray
  | .runtimeMethod => sig = .call
  | .runtimeIcStub => sig = .call ∨ sig = .callQuick
  | .runtimeHelper => isCpResolvingSig sig && !isQuickenedFieldOp op
  | .none => false

def fitsWidth (value widthBytes : Nat) : Bool :=
  widthBytes ≥ 8 || value ≤ 2 ^ (8 * widthBytes) - 1

end B2Compiler.Baseline
