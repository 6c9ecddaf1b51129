import B2Compiler.Rbc.Verifier

/-!
# Basic blocks and switch edges of the graph builder

The builder cuts a method into blocks and decodes the payload of a switch on its own:
once for the block leaders, once for the successors of the block that ends in the switch,
and once when it emits the switch node with one projection for each case and one for the
default.  `succ_switch` says that the successors of such a block start at the decoded
targets, in table order and with the default last.
-/

namespace B2Compiler.Passes.Builder

open Rbc List

/-- A size of the code as the signed 32-bit number it is compared as. -/
def signedSize (n : Nat) : Int := (BitVec.ofNat 32 n).toInt

/-- The words of a payload as targets; the first one out of range fails the build. -/
def checkTargets (n : Nat) (msg : String) : List (BitVec 32) → Except String (List Nat)
  | [] => .ok []
  | t :: ts =>
    if t.toInt < 0 ∨ t.toInt ≥ signedSize n then .error msg
    else (checkTargets n msg ts).map (t.toNat :: ·)

/-- The default target joins the case targets unless it lies outside the code. -/
def withDefault (n : Nat) (def' : BitVec 32) (targets : List Nat) :
    Except String (List Nat × Nat) :=
  if def'.toNat ≥ n then .error "switch default target out of range"
  else .ok (targets, def'.toNat)

/-- The case targets of a switch in table order and its default target.  An error fails
the whole build. -/
def switchTargets (m : Method) (ins : Ins) : Except String (List Nat × Nat) :=
  let n := m.code.length
  match m.cp[ins.immIdx]? with
  | none => .error ("constant pool index " ++ toString ins.immIdx ++ " out of range")
  | some c =>
    let v := c.ints
    if c.kind ≠ .switchTable then
      .error ("constant pool entry " ++ toString ins.immIdx ++ " is " ++ c.kind.kindName ++
        ", expected utf8/string")
    else if ins.op = .tableswitch then
      let low := (v.getD 0 0).toInt
      let high := (v.getD 1 0).toInt
      if v.length < 3 then .error "malformed tableswitch payload"
      else if low > high ∨ 3 + (high - low) + 1 ≠ v.length then
        .error "malformed tableswitch payload"
      else
        (checkTargets n "tableswitch target out of range" (v.drop 3)).bind
          (withDefault n (v.getD 2 0))
    else
      let pairs := (v.getD 0 0).toInt
      if v.length < 2 ∨ pairs < 0 ∨ 2 + 2 * pairs ≠ v.length then
        .error "malformed lookupswitch payload"
      else
        (checkTargets n "lookupswitch target out of range"
          ((range pairs.toNat).map fun i => v.getD (3 + 2 * i) 0)).bind
          (withDefault n (v.getD 1 0))

/-- Case targets and default as one list, default last; empty when the payload fails. -/
def allTargets (m : Method) (ins : Ins) : List Nat :=
  match switchTargets m ins with
  | .ok (targets, def') => targets ++ [def']
  | .error _ => []

/-! ## Blocks -/

/-- The signatures that end a block with a jump; unlike the verifier's, this list has the
switches. -/
def isBranchSig (s : Sig) : Bool :=
  s = .branch || s = .regBranch || s = .regRegBranch || s = .regCpBranch

def canFallThrough (op : Op) : Bool :=
  let sig := (info op).sig
  if sig = .regBranch ∨ sig = .regRegBranch then true
  else !isBranchSig sig && !isReturnOp op && op != .athrow && op != .deoptTrap

def isTerminator (op : Op) : Bool :=
  isBranchSig (info op).sig || isReturnOp op || op == .athrow || op == .deoptTrap

/-- The instruction at `q` makes `pc` a leader: as a target, or as what follows a
terminator. -/
def marks (m : Method) (q pc : Nat) : Bool :=
  let ins := codeAt m q
  let sig := (info ins.op).sig
  (isBranchSig sig && sig != .regCpBranch && ins.immIdx == pc) ||
  (sig == .regCpBranch && (allTargets m ins).contains pc) ||
  (isTerminator ins.op && q + 1 == pc)

/-- Does a block start at this pc? -/
def isLeader (m : Method) (pc : Nat) : Bool :=
  pc == 0 || (range m.code.length).any (fun q => marks m q pc) ||
  m.handlers.any (fun h => h.handler == pc)

/-- First instructions of the blocks, in order. -/
def starts (m : Method) : List Nat := (range m.code.length).filter (isLeader m)

/-- The number of the block a pc lies in. -/
def blockOf (m : Method) (pc : Nat) : Nat := ((starts m).filter (· ≤ pc)).length - 1

/-- Last instruction of a block: the next block starts behind it. -/
def lastPc (m : Method) (b : Nat) : Nat := (starts m).getD (b + 1) m.code.length - 1

/-- A successor edge to a target inside the code. -/
def addSucc (m : Method) (target : Nat) : List Nat :=
  if target < m.code.length then [blockOf m target] else []

/-- Successors of a block in the order of their edges. -/
def succ (m : Method) (b : Nat) : List Nat :=
  let last := lastPc m b
  let ins := codeAt m last
  let sig := (info ins.op).sig
  if sig = .branch then addSucc m ins.immIdx
  else if sig = .regBranch ∨ sig = .regRegBranch then
    addSucc m ins.immIdx ++ addSucc m (last + 1)
  else if sig = .regCpBranch then (allTargets m ins).flatMap (addSucc m)
  else if canFallThrough ins.op then addSucc m (last + 1)
  else []

/-! ## Numbering of blocks -/

/-- In a strictly increasing list an element stands behind the smaller ones. -/
theorem getElem?_length_filter_lt {l : List Nat} (hSorted : l.Pairwise (· < ·)) {x : Nat}
    (hx : x ∈ l) : l[(l.filter (· < x)).length]? = some x := by
  induction l with
  | nil => cases hx
  | cons a rest ih =>
    have hHead : ∀ y ∈ rest, a < y := (pairwise_cons.mp hSorted).1
    rcases mem_cons.mp hx with rfl | hRest
    · have hNone : (x :: rest).filter (· < x) = [] := by
        rw [filter_eq_nil_iff]
        intro y hy
        rcases mem_cons.mp hy with rfl | hy
        · simp
        · have := hHead y hy
          simp only [decide_eq_true_eq]
          omega
      rw [hNone]
      rfl
    · have hLt : a < x := hHead x hRest
      rw [filter_cons_of_pos (by simpa using hLt), length_cons, getElem?_cons_succ]
      exact ih (pairwise_cons.mp hSorted).2 hRest

/-- Up to an element there is one more than below it. -/
theorem length_filter_le {l : List Nat} (hSorted : l.Pairwise (· < ·)) {x : Nat}
    (hx : x ∈ l) : (l.filter (· ≤ x)).length = (l.filter (· < x)).length + 1 := by
  induction l with
  | nil => cases hx
  | cons a rest ih =>
    have hHead : ∀ y ∈ rest, a < y := (pairwise_cons.mp hSorted).1
    rcases mem_cons.mp hx with rfl | hRest
    · have hNone (p : Nat → Bool) (hp : ∀ y, x < y → p y = false) : rest.filter p = [] := by
        rw [filter_eq_nil_iff]
        intro y hy
        rw [hp y (hHead y hy)]
        exact Bool.false_ne_true
      rw [filter_cons_of_pos (by simp), filter_cons_of_neg (by simp),
        hNone (· ≤ x) (fun y hy => by simp; omega), hNone (· < x) (fun y hy => by simp; omega)]
      rfl
    · have hLt : a < x := hHead x hRest
      rw [filter_cons_of_pos (by simp; omega), filter_cons_of_pos (by simpa using hLt),
        length_cons, length_cons, ih (pairwise_cons.mp hSorted).2 hRest]

theorem starts_sorted (m : Method) : (starts m).Pairwise (· < ·) :=
  List.Pairwise.filter _ pairwise_lt_range

variable {m : Method}

theorem mem_starts {pc : Nat} : pc ∈ starts m ↔ pc < m.code.length ∧ isLeader m pc = true := by
  rw [starts, mem_filter, mem_range]

theorem starts_blockOf {pc : Nat} (h : pc ∈ starts m) : (starts m)[blockOf m pc]? = some pc := by
  rw [blockOf, length_filter_le (starts_sorted m) h, Nat.add_sub_cancel]
  exact getElem?_length_filter_lt (starts_sorted m) h

theorem lastPc_blockOf {pc : Nat} (hpc : pc < m.code.length)
    (hTerm : isTerminator (codeAt m pc).op = true) : lastPc m (blockOf m pc) = pc := by
  have hZero : 0 ∈ starts m := mem_starts.mpr ⟨by omega, by simp [isLeader]⟩
  have hPos : 0 < ((starts m).filter (· ≤ pc)).length :=
    length_pos_of_mem (mem_filter.mpr ⟨hZero, by simp⟩)
  have hNext : blockOf m pc + 1 = ((starts m).filter (· < pc + 1)).length := by
    simp only [Nat.lt_succ_iff, blockOf]
    omega
  unfold lastPc
  rw [getD_eq_getElem?_getD, hNext]
  by_cases hEnd : pc + 1 < m.code.length
  · have hLeader : pc + 1 ∈ starts m := by
      refine mem_starts.mpr ⟨hEnd, ?_⟩
      have hMarks : marks m pc (pc + 1) = true := by simp [marks, hTerm]
      simp only [isLeader, Bool.or_eq_true, any_eq_true, mem_range]
      exact Or.inl (Or.inr ⟨pc, hpc, hMarks⟩)
    rw [getElem?_length_filter_lt (starts_sorted m) hLeader]
    rfl
  · have hAll : (starts m).filter (· < pc + 1) = starts m := by
      rw [filter_eq_self]
      intro q hq
      have := (mem_starts.mp hq).1
      simp only [decide_eq_true_eq]
      omega
    rw [hAll, getElem?_eq_none (Nat.le_refl _)]
    show m.code.length - 1 = pc
    omega

theorem mem_allTargets_leader {pc t : Nat} (hpc : pc < m.code.length)
    (hSwitch : (info (codeAt m pc).op).sig = .regCpBranch) (ht : t < m.code.length)
    (hMem : t ∈ allTargets m (codeAt m pc)) : t ∈ starts m := by
  have hMarks : marks m pc t = true := by
    simp only [marks, hSwitch, beq_self_eq_true, Bool.true_and, contains_iff_mem.mpr hMem,
      Bool.or_true, Bool.true_or]
  refine mem_starts.mpr ⟨ht, ?_⟩
  simp only [isLeader, Bool.or_eq_true, any_eq_true, mem_range]
  exact Or.inl (Or.inr ⟨pc, hpc, hMarks⟩)

/-- The block that ends in a switch has one successor for each target, and they start at
the targets. -/
theorem succ_switch {pc : Nat} (hpc : pc < m.code.length)
    (hSwitch : (info (codeAt m pc).op).sig = .regCpBranch)
    (hIn : ∀ t ∈ allTargets m (codeAt m pc), t < m.code.length) :
    (succ m (blockOf m pc)).map ((starts m)[·]?) = (allTargets m (codeAt m pc)).map some := by
  have hTerm : isTerminator (codeAt m pc).op = true := by
    simp [isTerminator, isBranchSig, hSwitch]
  have hSucc : succ m (blockOf m pc) = (allTargets m (codeAt m pc)).flatMap (addSucc m) := by
    simp only [succ, lastPc_blockOf hpc hTerm, hSwitch, reduceCtorEq, or_self, if_false, if_true]
  rw [hSucc, map_flatMap, map_eq_flatMap]
  apply flatMap_congr
  intro t ht
  rw [addSucc, if_pos (hIn t ht), map_singleton,
    starts_blockOf (mem_allTargets_leader hpc hSwitch (hIn t ht) ht)]

/-- The control projections of a switch node. -/
inductive Projection where
  | switchCase (ordinal : Nat)
  | switchDefault
  deriving DecidableEq, Repr

/-- The projections emitted for a switch, each with the pc its edge leads to. -/
def switchEdges (m : Method) (ins : Ins) : Except String (List (Projection × Nat)) :=
  (switchTargets m ins).map fun (targets, def') =>
    targets.zipIdx.map (fun (t, i) => (.switchCase i, t)) ++ [(.switchDefault, def')]

/-- The selector values of the cases in table order. -/
def caseMatches (op : Op) (v : List (BitVec 32)) : List Int :=
  if op = .tableswitch then
    let low := (v.getD 0 0).toInt
    let high := (v.getD 1 0).toInt
    (range (high - low + 1).toNat).map fun (i : Nat) => low + i
  else (range (v.getD 0 0).toInt.toNat).map fun i => (v.getD (2 + 2 * i) 0).toInt

/-- The projection through which control leaves a switch node: cases are numbered in
table order. -/
def projection (op : Op) (v : List (BitVec 32)) (sel : BitVec 32) : Projection :=
  match (caseMatches op v).findIdx? (· == sel.toInt) with
  | some i => .switchCase i
  | none => .switchDefault

def edgeTarget (edges : List (Projection × Nat)) (p : Projection) : Option Nat :=
  (edges.find? fun e => e.1 == p).map Prod.snd

end B2Compiler.Passes.Builder
