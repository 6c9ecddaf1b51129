import B2Compiler.Codegen.SwitchAgreement
import B2Compiler.Passes.BuilderDfs
import B2Compiler.Passes.TypeTransfer

/-!
# The blocks of the graph builder against the control flow of the method

The blocks cut the code into runs without a leader inside, and on an accepted method the
edges out of a block are the ways control can leave its last instruction.  So the
instructions of the blocks that are reachable over the edges are the ones control can come
to without an exception.
-/

namespace B2Compiler.Passes.Builder

open Relation List Nat
open Rbc hiding isBranchSig canFallThrough isTerminator isLeader blockOf
  switchTargets cpAt blockPcs resultType

section Runs

variable {m : Method}

/-! ## Blocks as runs of instructions -/

/-- The end of a block: the start of the next one, or the end of the code. -/
def endPc (m : Method) (b : Nat) : Nat := (starts m).getD (b + 1) m.code.length

/-- In an increasing list the elements up to a bound come first. -/
theorem filter_le_eq_takeWhile {l : List Nat} (hSorted : l.Pairwise (· < ·)) (x : Nat) :
    l.filter (· ≤ x) = l.takeWhile (· ≤ x) := by
  induction l with
  | nil => rfl
  | cons a rest ih =>
    have hHead := (pairwise_cons.mp hSorted).1
    by_cases ha : a ≤ x
    · rw [filter_cons_of_pos (by simpa using ha),
        takeWhile_cons_of_pos (by simpa using ha), ih (pairwise_cons.mp hSorted).2]
    rw [takeWhile_cons_of_neg (by simpa using ha), filter_eq_nil_iff]
    intro y hy
    rcases mem_cons.mp hy with rfl | hy
    · simpa using ha
    · have hLt := hHead y hy
      simp only [decide_eq_true_eq]
      omega

theorem zero_mem_starts (hCode : 0 < m.code.length) : 0 ∈ starts m :=
  mem_starts.mpr ⟨hCode, by simp [isLeader]⟩

theorem block_bounds {pc : Nat} (hpc : pc < m.code.length) :
    startPc m (blockOf m pc) ≤ pc ∧ pc < endPc m (blockOf m pc) := by
  have hSplit := takeWhile_append_dropWhile (p := fun q => decide (q ≤ pc)) (l := starts m)
  have hFilter := filter_le_eq_takeWhile (starts_sorted m) pc
  generalize hFront : (starts m).takeWhile (fun q => decide (q ≤ pc)) = front at hSplit hFilter
  generalize hBack : (starts m).dropWhile (fun q => decide (q ≤ pc)) = back at hSplit
  have hZero : 0 ∈ front := by
    rw [← hFilter]
    exact mem_filter.mpr ⟨zero_mem_starts (by omega), by simp⟩
  have hPos : 0 < front.length := length_pos_of_mem hZero
  have hBlock : blockOf m pc = front.length - 1 := by
    unfold blockOf
    rw [hFilter]
  constructor
  · have hMem : front[front.length - 1] ∈ (starts m).filter (· ≤ pc) := by
      rw [hFilter]
      exact getElem_mem _
    unfold startPc
    rw [hBlock, ← hSplit, getD_eq_getElem?_getD,
      getElem?_append_left (by omega), getElem?_eq_getElem (by omega)]
    simpa using (mem_filter.mp hMem).2
  · unfold endPc
    rw [hBlock, ← hSplit, getD_eq_getElem?_getD, Nat.sub_add_cancel hPos,
      getElem?_append_right (Nat.le_refl _), Nat.sub_self]
    cases back with
    | nil => exact hpc
    | cons y rest =>
      have hStop : ¬y ≤ pc := by
        have hNe : (starts m).dropWhile (fun q => decide (q ≤ pc)) ≠ [] := by
          rw [hBack]
          exact cons_ne_nil y rest
        have hHead := head_dropWhile_not _ hNe
        simpa [hBack] using hHead
      show pc < y
      omega

variable {b : Nat}

theorem getElem?_starts (hb : b < (starts m).length) : (starts m)[b]? = some (startPc m b) := by
  unfold startPc
  rw [getD_eq_getElem?_getD, getElem?_eq_getElem hb]
  rfl

theorem startPc_mem (hb : b < (starts m).length) : startPc m b ∈ starts m :=
  mem_of_getElem? (getElem?_starts hb)

theorem startPc_lt (hb : b < (starts m).length) : startPc m b < m.code.length :=
  (mem_starts.mp (startPc_mem hb)).1

theorem startPc_mono {c : Nat} (hbc : b < c) (hc : c < (starts m).length) :
    startPc m b < startPc m c := by
  have hLt := pairwise_iff_getElem.mp (starts_sorted m) b c (by omega) hc hbc
  have hB := getElem?_starts (m := m) (b := b) (by omega)
  have hC := getElem?_starts hc
  rw [getElem?_eq_getElem (by omega)] at hB hC
  rwa [Option.some.inj hB, Option.some.inj hC] at hLt

theorem endPc_of_lt (hb : b + 1 < (starts m).length) : endPc m b = startPc m (b + 1) := by
  unfold endPc startPc
  rw [getD_eq_getElem?_getD, getD_eq_getElem?_getD, getElem?_eq_getElem hb]
  rfl

theorem endPc_of_ge (hb : (starts m).length ≤ b + 1) : endPc m b = m.code.length := by
  unfold endPc
  rw [getD_eq_getElem?_getD, getElem?_eq_none hb]
  rfl

theorem startPc_lt_endPc (hb : b < (starts m).length) :
    startPc m b < endPc m b ∧ endPc m b ≤ m.code.length := by
  by_cases hNext : b + 1 < (starts m).length
  · rw [endPc_of_lt hNext]
    exact ⟨startPc_mono (lt_succ_self b) hNext, le_of_lt (startPc_lt hNext)⟩
  · rw [endPc_of_ge (by omega)]
    exact ⟨startPc_lt hb, le_refl _⟩

theorem endPc_le_startPc {c : Nat} (hbc : b < c) (hc : c < (starts m).length) :
    endPc m b ≤ startPc m c := by
  rw [endPc_of_lt (by omega)]
  by_cases hEq : b + 1 = c
  · rw [hEq]
  · exact le_of_lt (startPc_mono (by omega) hc)

theorem blockOf_eq {pc : Nat} (hb : b < (starts m).length) (hLow : startPc m b ≤ pc)
    (hHigh : pc < endPc m b) : blockOf m pc = b := by
  have hEnd := (startPc_lt_endPc hb).2
  obtain ⟨hStart, hStop⟩ := block_bounds (show pc < m.code.length by omega)
  have hc : blockOf m pc < (starts m).length := blockOf_lt (by omega) pc
  rcases lt_trichotomy (blockOf m pc) b with hLt | hEq | hGt
  · have hLe := endPc_le_startPc hLt hb
    omega
  · exact hEq
  · have hLe := endPc_le_startPc hGt hc
    omega

theorem startPc_blockOf {pc : Nat} (h : pc ∈ starts m) : startPc m (blockOf m pc) = pc := by
  unfold startPc
  rw [getD_eq_getElem?_getD, starts_blockOf h]
  rfl

theorem blockOf_zero (hCode : 0 < m.code.length) : blockOf m 0 = 0 := by
  unfold blockOf
  rw [length_filter_le (starts_sorted m) (zero_mem_starts hCode), Nat.add_sub_cancel]
  simp

/-- Behind its first instruction a block has no leader, and so no terminator before its last
one. -/
theorem not_terminator_inside {pc : Nat} (hb : b < (starts m).length) (hLow : startPc m b ≤ pc)
    (hHigh : pc + 1 < endPc m b) : isTerminator (codeAt m pc).op = false := by
  have hEnd := (startPc_lt_endPc hb).2
  rw [← Bool.not_eq_true]
  intro hTerm
  have hLast := lastPc_blockOf (show pc < m.code.length by omega) hTerm
  rw [blockOf_eq hb hLow (by omega)] at hLast
  have hSub : endPc m b - 1 = pc := hLast
  omega

/-! ## Ways out of an instruction -/

/-- Where the edges out of the block that ends at this instruction lead. -/
def exits (m : Method) (pc : Nat) : List Nat :=
  let ins := codeAt m pc
  let sig := (info ins.op).sig
  if sig = .branch then [ins.immIdx]
  else if sig = .regBranch ∨ sig = .regRegBranch then [ins.immIdx, pc + 1]
  else if sig = .regCpBranch then allTargets m ins
  else if canFallThrough ins.op then [pc + 1]
  else []

theorem succ_eq (b : Nat) : succ m b = (exits m (lastPc m b)).flatMap (addSucc m) := by
  unfold succ exits
  dsimp only
  split
  · rw [flatMap_singleton]
  split
  · rw [flatMap_cons, flatMap_singleton]
  · split
    · rfl
    · split
      · rw [flatMap_singleton]
      · rfl

theorem canFallThrough_eq (op : Op) : canFallThrough op = Rbc.canFallThrough op := by
  cases op <;> rfl

theorem isBranchSig_eq {s : Sig} (h : s ≠ .regCpBranch) : isBranchSig s = Rbc.isBranchSig s := by
  cases s <;> first | rfl | exact absurd rfl h

end Runs

/-- The words a switch can jump to: those of its cases and the default. -/
theorem mem_switchWords {n : Nat} {op : Op} {v : List (BitVec 32)}
    (h : Codegen.Accepted n op v) (w : BitVec 32) :
    w ∈ switchWords op v ↔ w ∈ Codegen.caseWords op v ++ [Codegen.defaultWord op v] := by
  unfold switchWords Codegen.caseWords Codegen.defaultWord
  by_cases hOp : op = .tableswitch
  · obtain ⟨hLen, -, -⟩ := Rbc.table_shape hOp h.shape
    have hDrop : v.drop 2 = v.getD 2 0 :: v.drop 3 := by
      rw [drop_eq_getElem_cons (by omega), getD_eq_getElem?_getD, getElem?_eq_getElem (by omega)]
      rfl
    rw [if_pos hOp, if_pos hOp, if_pos hOp, hDrop, mem_cons, mem_append, mem_singleton]
    exact or_comm
  · obtain ⟨-, hCount, -⟩ := Rbc.lookup_shape hOp h.shape
    have hNat : (v.getD 0 0).toInt.toNat = (v.getD 0 0).toNat := by
      rw [BitVec.toInt_eq_toNat_cond] at hCount ⊢
      split
      · rfl
      · rename_i hHigh
        rw [if_neg hHigh] at hCount
        have hLt := (v.getD 0 0).isLt
        omega
    rw [if_neg hOp, if_neg hOp, if_neg hOp, hNat]

section Flow

variable {m : Method}

/-- The targets the builder decodes from an accepted switch are the verifier's. -/
theorem mem_allTargets {pc : Nat} (hStruct : structureMsgs m pc (codeAt m pc) = [])
    (hSig : (info (codeAt m pc).op).sig = .regCpBranch) (hn : m.code.length < 2 ^ 31) (t : Nat) :
    t ∈ allTargets m (codeAt m pc) ↔ t ∈ branchTargets m (codeAt m pc) := by
  obtain ⟨v, hPay⟩ : ∃ v, switchPayload m (codeAt m pc) = some v := by
    obtain ⟨c, hGet, hKind⟩ := cpAt_of_structure hStruct (by rw [hSig]; rfl)
    have hTable : c.kind = .switchTable := by
      revert hKind hSig
      cases (codeAt m pc).op <;> simp [info, cpKindOk]
    unfold switchPayload
    rw [hGet]
    exact ⟨c.ints, if_pos hTable⟩
  have hAccepted := Codegen.accepted_of_msgs hPay ((structure_parts hStruct).2.2 hSig)
  obtain ⟨ts, d, hOk⟩ := Codegen.switchTargets_of_lt hPay hAccepted hn
  obtain ⟨hTs, hd⟩ := Codegen.switchTargets_ok hPay hAccepted hOk
  have hAll : allTargets m (codeAt m pc) = (Codegen.caseWords (codeAt m pc).op v ++
        [Codegen.defaultWord (codeAt m pc).op v]).map BitVec.toNat := by
    unfold allTargets
    rw [hOk]
    dsimp only
    rw [hTs, hd, map_append, Codegen.map_caseWords hAccepted, map_singleton,
      Codegen.toNat_defaultWord]
  have hBranch : branchTargets m (codeAt m pc) =
      (switchWords (codeAt m pc).op v).map BitVec.toNat := by
    unfold branchTargets
    dsimp only
    rw [if_neg (by rw [hSig]; decide), if_pos hSig, hPay]
  rw [hAll, hBranch]
  simp only [mem_map, mem_switchWords hAccepted]

theorem mem_exits {pc : Nat} (hStruct : structureMsgs m pc (codeAt m pc) = [])
    (hn : m.code.length < 2 ^ 31) (q : Nat) : q ∈ exits m pc ↔ q ∈ nextPcs m pc := by
  unfold exits nextPcs
  dsimp only
  rw [mem_append]
  by_cases hSwitch : (info (codeAt m pc).op).sig = .regCpBranch
  · have hStop : Rbc.canFallThrough (codeAt m pc).op = false := by
      rw [← canFallThrough_eq, canFallThrough]
      simp [hSwitch, isBranchSig]
    rw [hSwitch, hStop]
    simp [mem_allTargets hStruct hSwitch hn]
  · have hTargets : branchTargets m (codeAt m pc) =
        if Rbc.isBranchSig (info (codeAt m pc).op).sig then [(codeAt m pc).immIdx] else [] := by
      unfold branchTargets
      dsimp only
      rw [if_neg hSwitch]
    rw [hTargets, if_neg hSwitch, ← isBranchSig_eq hSwitch, ← canFallThrough_eq]
    by_cases hGoto : (info (codeAt m pc).op).sig = .branch
    · simp [hGoto, canFallThrough, isBranchSig]
    by_cases hIf : (info (codeAt m pc).op).sig = .regBranch ∨
        (info (codeAt m pc).op).sig = .regRegBranch
    · have hBranch : isBranchSig (info (codeAt m pc).op).sig = true := by
        rcases hIf with h | h <;> rw [h] <;> rfl
      have hFall : canFallThrough (codeAt m pc).op = true := by
        unfold canFallThrough
        exact if_pos hIf
      rw [if_neg hGoto, if_pos hIf, if_pos hFall, if_pos hBranch]
      simp [or_comm]
    · have hPlain : isBranchSig (info (codeAt m pc).op).sig = false := by
        simp only [not_or] at hIf
        simp [isBranchSig, hGoto, hIf.1, hIf.2, hSwitch]
      rw [if_neg hGoto, if_neg hIf, hPlain]
      simp

theorem exits_of_not_terminator {pc : Nat} (h : isTerminator (codeAt m pc).op = false) :
    exits m pc = [pc + 1] := by
  unfold isTerminator at h
  simp only [Bool.or_eq_false_iff] at h
  obtain ⟨⟨⟨hSig, hReturn⟩, hThrow⟩, hTrap⟩ := h
  unfold exits canFallThrough
  simp only [isBranchSig, Bool.or_eq_false_iff, decide_eq_false_iff_not] at hSig
  simp [hSig, isBranchSig, hReturn, bne, hThrow, hTrap]

theorem mem_succ_of_exits {b q : Nat} (hq : q < m.code.length)
    (h : q ∈ exits m (lastPc m b)) : blockOf m q ∈ succ m b := by
  rw [succ_eq, mem_flatMap]
  refine ⟨q, h, ?_⟩
  unfold addSucc
  rw [if_pos hq]
  exact mem_singleton_self _

theorem exits_of_mem_succ {b t : Nat} (h : t ∈ succ m b) :
    ∃ q ∈ exits m (lastPc m b), q < m.code.length ∧ t = blockOf m q := by
  rw [succ_eq, mem_flatMap] at h
  obtain ⟨q, hq, ht⟩ := h
  unfold addSucc at ht
  split at ht
  · rename_i hLt
    exact ⟨q, hq, hLt, mem_singleton.mp ht⟩
  · cases ht

theorem mem_starts_of_exits {b q : Nat} (hb : b < (starts m).length) (hq : q < m.code.length)
    (h : q ∈ exits m (lastPc m b)) : q ∈ starts m := by
  obtain ⟨hStart, hEnd⟩ := startPc_lt_endPc hb
  have hLast : lastPc m b = endPc m b - 1 := rfl
  have hFall : q = lastPc m b + 1 → q ∈ starts m := by
    intro hEq
    have hNext : b + 1 < (starts m).length := by
      by_contra hFinal
      have hCode := endPc_of_ge (m := m) (b := b) (by omega)
      omega
    have hStartNext := endPc_of_lt hNext
    rw [show q = startPc m (b + 1) by omega]
    exact startPc_mem hNext
  have hJump : marks m (lastPc m b) q = true → q ∈ starts m := by
    intro hMarks
    refine mem_starts.mpr ⟨hq, ?_⟩
    simp only [isLeader, Bool.or_eq_true, any_eq_true, mem_range]
    exact Or.inl (Or.inr ⟨lastPc m b, by omega, hMarks⟩)
  unfold exits at h
  dsimp only at h
  split at h
  · rename_i hSig
    apply hJump
    simp [marks, hSig, isBranchSig, mem_singleton.mp h]
  split at h
  · rename_i hSig
    rcases mem_cons.mp h with hTarget | h
    · apply hJump
      rcases hSig with hSig | hSig <;> simp [marks, hSig, isBranchSig, hTarget]
    · exact hFall (mem_singleton.mp h)
  · split at h
    · rename_i hSig
      apply hJump
      simp [marks, hSig, h]
    · split at h
      · exact hFall (mem_singleton.mp h)
      · cases h

/-- Control can come to the instruction without an exception. -/
def Entered (m : Method) (pc : Nat) : Prop :=
  ReflTransGen (fun p q => p < m.code.length ∧ q ∈ nextPcs m p) 0 pc

/-- What control can come to without an exception lies in a block that is reachable over the
edges. -/
theorem reachable_of_entered (hst : Structured m) (hn : m.code.length < 2 ^ 31)
    (hCode : 0 < m.code.length) {pc : Nat} (h : Entered m pc) :
    pc < m.code.length ∧ (cfgOf m hCode).Reachable (blockOf m pc) := by
  induction h with
  | refl =>
    refine ⟨hCode, ?_⟩
    rw [blockOf_zero hCode]
    exact ReflTransGen.refl
  | @tail p q _ hStep ih =>
    obtain ⟨hp, hReach⟩ := ih
    have hq := hst.nextPcs_lt hp hStep.2
    refine ⟨hq, ?_⟩
    have hExit : q ∈ exits m p := (mem_exits (hst.instruction p hp) hn q).mpr hStep.2
    obtain ⟨hLow, hHigh⟩ := block_bounds hp
    have hBlock := blockOf_lt hCode p
    by_cases hLast : p + 1 = endPc m (blockOf m p)
    · have hLastPc : lastPc m (blockOf m p) = p := by
        show endPc m (blockOf m p) - 1 = p
        omega
      refine hReach.step (mem_succ_of_exits hq ?_)
      rw [hLastPc]
      exact hExit
    · -- inside a block control goes to the next instruction
      have hInside := not_terminator_inside hBlock hLow (by omega)
      rw [exits_of_not_terminator hInside, mem_singleton] at hExit
      rw [hExit, blockOf_eq hBlock (by omega) (by omega)]
      exact hReach

end Flow

end B2Compiler.Passes.Builder
