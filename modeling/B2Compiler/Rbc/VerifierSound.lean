import B2Compiler.Rbc.VerifierStep
import B2Compiler.Rbc.VerifierSweep

/-!
# What an accepted method guarantees

Every path of an accepted method stays in agreement with the fixpoint the
verifier stopped at, as long as the operands the verifier does not look at are in
order.  So the reads of an accepted method are all initialised and well typed
exactly when the unchecked ones are; an array store of a register nothing was
written to shows that the verifier alone does not give this.
-/

namespace B2Compiler.Rbc

open Lib List Nat

/-! ## Structural guarantees -/

section Structure

variable {m : Method}

/-- Nothing was reported before the type check. -/
structure Structured (m : Method) : Prop where
  instruction : ∀ pc, pc < m.code.length → structureMsgs m pc (codeAt m pc) = []
  handler : ∀ h ∈ m.handlers, handlerMsgs m h = []
  last : canFallThrough (codeAt m (m.code.length - 1)).op = false ∨ m.code.length = 0

theorem codeAt_eq {pc : Nat} (hpc : pc < m.code.length) : m.code[pc]? = some (codeAt m pc) := by
  rw [codeAt, getD_eq_getElem?_getD, getElem?_eq_getElem hpc]
  rfl

theorem structured_of_diags (h : structuralDiags m = []) : Structured m := by
  unfold structuralDiags at h
  obtain ⟨h, hlast⟩ := append_eq_nil_iff.mp h
  obtain ⟨h, hhandlers⟩ := append_eq_nil_iff.mp h
  obtain ⟨_, hcode⟩ := append_eq_nil_iff.mp h
  refine ⟨fun pc hpc => ?_, fun k hk => ?_, ?_⟩
  · have hmem : (codeAt m pc, pc) ∈ m.code.zipIdx :=
      mk_mem_zipIdx_iff_getElem?.mpr (codeAt_eq hpc)
    have hmap := flatMap_eq_nil_iff.mp hcode (codeAt m pc, pc) hmem
    rw [map_eq_nil_iff] at hmap
    exact hmap
  · exact map_eq_nil_iff.mp (flatMap_eq_nil_iff.mp hhandlers k hk)
  · by_cases hn : m.code.length = 0
    · exact Or.inr hn
    left
    have hend : m.code.getLast? = some (codeAt m (m.code.length - 1)) := by
      rw [getLast?_eq_getElem?, codeAt_eq (by omega)]
    rw [hend] at hlast
    dsimp only at hlast
    by_contra hfall
    rw [if_pos (by simpa using hfall)] at hlast
    cases hlast

variable {ins : Ins}

/-- The parts of the structural check of an instruction. -/
theorem structure_parts {pc : Nat} (h : structureMsgs m pc ins = []) :
    WellFormed m ins ∧ (isBranchSig (info ins.op).sig = true → ins.immIdx < m.code.length) ∧
      ((info ins.op).sig = .regCpBranch → switchMsgs m ins = []) := by
  unfold structureMsgs at h
  obtain ⟨h, hswitch⟩ := append_eq_nil_iff.mp h
  obtain ⟨h, hbranch⟩ := append_eq_nil_iff.mp h
  obtain ⟨h, _⟩ := append_eq_nil_iff.mp h
  obtain ⟨h, _⟩ := append_eq_nil_iff.mp h
  obtain ⟨h, hslot⟩ := append_eq_nil_iff.mp h
  obtain ⟨h, _⟩ := append_eq_nil_iff.mp h
  obtain ⟨h, hb⟩ := append_eq_nil_iff.mp h
  obtain ⟨hdst, ha⟩ := append_eq_nil_iff.mp h
  have hno : ∀ {c : Prop} [Decidable c] {x : String}, (if c then [x] else []) = [] → ¬c := by
    intro c _ x hnil hc
    rw [if_pos hc] at hnil
    cases hnil
  refine ⟨⟨?_, fun hsig => ?_⟩, fun hsig => ?_, fun hsig => ?_⟩
  · have hd := hno hdst
    have hA := hno ha
    have hB := hno hb
    simp only [not_and, not_le, ge_iff_le] at hd hA hB
    simp only [operandsOk, Bool.not_eq_true', Bool.or_eq_false_iff, Bool.and_eq_false_iff,
      decide_eq_false_iff_not, ge_iff_le, not_le]
    have hread : ∀ {use : Bool} {bound : Prop}, (use = true → bound) → use = false ∨ bound :=
      fun h => (Bool.eq_false_or_eq_true _).symm.imp_right h
    exact ⟨⟨hread hd, hread hA⟩, hread hB⟩
  · have hs := hno hslot
    by_contra hcon
    exact hs ⟨hsig, by omega⟩
  · have hbr := hno hbranch
    by_contra hcon
    exact hbr ⟨hsig, by omega⟩
  · rwa [if_pos hsig] at hswitch

theorem Structured.wellFormed (h : Structured m) {pc : Nat} (hpc : pc < m.code.length) :
    WellFormed m (codeAt m pc) :=
  (structure_parts (h.instruction pc hpc)).1

/-- A handler of an accepted method is well formed. -/
theorem Structured.covers (hst : Structured m) {h : ExceptionHandler} (hmem : h ∈ m.handlers)
    {pc : Nat} (hcov : h.start ≤ pc ∧ pc < h.stop) : covers m h pc = true := by
  have hmsgs := hst.handler h hmem
  unfold handlerMsgs at hmsgs
  obtain ⟨hmsgs, _⟩ := append_eq_nil_iff.mp hmsgs
  obtain ⟨hrange, htarget⟩ := append_eq_nil_iff.mp hmsgs
  have hstop : h.stop ≤ m.code.length := by
    by_contra hcon
    rw [if_pos (Or.inr (by omega))] at hrange
    cases hrange
  have hentry : h.handler < m.code.length := by
    by_contra hcon
    rw [if_pos (by omega)] at htarget
    cases htarget
  exact covers_iff.mpr ⟨by omega, hstop, hentry, hcov⟩

/-! ### Jumps -/

theorem targetPc_toNat {n q : Nat} {t : BitVec 32} (h : targetPc n t = some q) : q = t.toNat := by
  unfold targetPc at h
  split at h
  · cases h
  rename_i hcond
  cases h
  have hnonneg : 0 ≤ t.toInt := by omega
  rw [BitVec.toInt_eq_toNat_cond] at hnonneg ⊢
  split at hnonneg
  · rename_i hlow
    rw [if_pos hlow]
    rfl
  · rename_i hhigh
    have hlt := t.isLt
    omega

theorem targetPc_of_no_msg {n : Nat} {t : BitVec 32} (h : targetMsg n t = []) :
    targetPc n t = some t.toNat := by
  unfold targetMsg at h
  split at h
  · rename_i q hq
    rw [hq, targetPc_toNat hq]
  · cases h

theorem switchWords_valid {n : Nat} {op : Op} {v : List (BitVec 32)}
    (h : switchEntryMsgs n op v = []) : ∀ w ∈ switchWords op v, targetPc n w = some w.toNat := by
  intro w hw
  unfold switchWords at hw
  unfold switchEntryMsgs at h
  by_cases htable : op = .tableswitch
  · rw [if_pos htable] at h hw
    exact targetPc_of_no_msg (flatMap_eq_nil_iff.mp h w hw)
  rw [if_neg htable] at h hw
  obtain ⟨hpairs, hdefault⟩ := append_eq_nil_iff.mp h
  rcases mem_append.mp hw with hw | hw
  · obtain ⟨i, hi, rfl⟩ := mem_map.mp hw
    have hpair := flatMap_eq_nil_iff.mp hpairs i hi
    exact targetPc_of_no_msg (append_eq_nil_iff.mp hpair).2
  · rw [mem_singleton] at hw
    rw [hw]
    exact targetPc_of_no_msg hdefault

/-! ### Switch payloads -/

/-- A payload is the words of a switch table in the constant pool. -/
theorem payload_entry {v : List (BitVec 32)} (h : switchPayload m ins = some v) :
    ∃ k, m.cp[ins.immIdx]? = some k ∧ k.kind = .switchTable ∧ k.ints = v := by
  unfold switchPayload at h
  split at h
  · rename_i k hk
    exact ⟨k, hk, by simpa using h⟩
  · cases h

/-- A payload the verifier has no complaint about. -/
theorem switch_clean {v : List (BitVec 32)} (hpay : switchPayload m ins = some v)
    (h : switchMsgs m ins = []) :
    switchShape ins.op v = [] ∧ switchEntryMsgs m.code.length ins.op v = [] := by
  unfold switchMsgs at h
  rw [hpay] at h
  dsimp only at h
  by_cases hshape : switchShape ins.op v = []
  · rw [if_pos hshape] at h
    exact ⟨hshape, h⟩
  · rw [if_neg hshape] at h
    exact absurd h hshape

section Shape

variable {op : Op} {v : List (BitVec 32)}

theorem table_shape (hop : op = .tableswitch) (h : switchShape op v = []) :
    3 ≤ v.length ∧ (v.getD 0 0).toInt ≤ (v.getD 1 0).toInt ∧
      3 + ((v.getD 1 0).toInt - (v.getD 0 0).toInt) + 1 = v.length := by
  unfold switchShape at h
  rw [if_pos hop] at h
  dsimp only at h
  split at h
  · cases h
  rename_i hlen
  obtain ⟨horder, hsize⟩ := append_eq_nil_iff.mp h
  refine ⟨by omega, ?_, ?_⟩
  · by_contra hgt
    rw [if_pos (by omega)] at horder
    cases horder
  · by_contra hne
    rw [if_pos hne] at hsize
    cases hsize

theorem lookup_shape (hop : op ≠ .tableswitch) (h : switchShape op v = []) :
    2 ≤ v.length ∧ 0 ≤ (v.getD 0 0).toInt ∧ 2 + 2 * (v.getD 0 0).toInt = v.length := by
  unfold switchShape at h
  rw [if_neg hop] at h
  dsimp only at h
  split at h
  · cases h
  · rename_i hlen
    split at h
    · cases h
    · omega

end Shape

/-- The jumps of an instruction are the ones the analysis follows. -/
theorem branchTargets_subset {pc : Nat} (h : structureMsgs m pc ins = []) :
    ∀ t ∈ branchTargets m ins, t ∈ jumpTargets m ins := by
  obtain ⟨_, hbranch, hswitch⟩ := structure_parts h
  intro t ht
  unfold branchTargets at ht
  unfold jumpTargets
  by_cases hbr : isBranchSig (info ins.op).sig = true
  · rw [if_pos hbr] at ht
    apply mem_append_left
    rw [if_pos ⟨hbr, hbranch hbr⟩]
    exact ht
  · rw [if_neg hbr] at ht
    by_cases hsig : (info ins.op).sig = .regCpBranch
    · rw [if_pos hsig] at ht
      apply mem_append_right
      rw [if_pos hsig]
      unfold switchTargets
      cases hpay : switchPayload m ins with
      | none =>
        rw [hpay] at ht
        cases ht
      | some v =>
        obtain ⟨hshape, hmsgs⟩ := switch_clean hpay (hswitch hsig)
        rw [hpay] at ht
        dsimp only at ht ⊢
        rw [if_pos hshape]
        obtain ⟨w, hw, rfl⟩ := mem_map.mp ht
        exact mem_filterMap.mpr ⟨w, hw, switchWords_valid hmsgs w hw⟩
    · rw [if_neg hsig] at ht
      cases ht

theorem isTerminator_of_jump {t : Nat} (h : t ∈ jumpTargets m ins) :
    isTerminator ins.op = true := by
  unfold jumpTargets at h
  unfold isTerminator
  rcases mem_append.mp h with h | h
  · split at h
    · rename_i hbr
      simp [hbr.1]
    · cases h
  · split at h
    · rename_i hsig
      simp [hsig]
    · cases h

end Structure

/-- The in-states of the blocks when the verifier's worklist has come to its end. -/
def blockTypes (m : Method) : Nat → Option (FlowState m) :=
  match parseParams m.descriptor with
  | some params =>
    (runWorklist (kOpBudget + 1) (seededFlow m (addDiags [] (structuralDiags m)) params).1).wl.inAt
  | none => fun _ => none

section

variable {m : Method} (h : (verify m).ok = true) (hcode : 0 < m.code.length)
include h hcode

theorem accepted_diags :
    structuralDiags m = [] ∧ ∃ ret params, parseParams m.descriptor = some params ∧
      ∃ fix : Fixpoint m ret params, fix.wl.inAt = blockTypes m := by
  have hdiags : verifyDiags m = [] := isEmpty_iff.mp h
  unfold verifyDiags at hdiags
  split at hdiags
  · cases hdiags
  dsimp only at hdiags
  split at hdiags
  · rename_i hearly
    rcases hearly with hnil | hfull
    · rw [hnil] at hcode
      exact absurd hcode (lt_irrefl 0)
    · rw [hdiags] at hfull
      exact absurd hfull (by decide)
  · split at hdiags
    · rename_i params ret hparams _
      split at hdiags
      · exact absurd hdiags (addDiag_ne_nil _ _)
      · obtain ⟨hstruct, fix, hwl⟩ := fixpoint_of_typeCheck hcode hdiags
        refine ⟨(addDiags_eq_nil hstruct).2, ret, params, hparams, fix, ?_⟩
        rw [hwl, blockTypes, hparams]
    · exact absurd hdiags (addDiag_ne_nil _ _)

/-- What acceptance of a method with code leaves behind. -/
theorem accepted : Structured m ∧ ∃ ret params, parseParams m.descriptor = some params ∧
      Nonempty (Fixpoint m ret params) :=
  let ⟨hdiags, ret, params, hparams, fix, _⟩ := accepted_diags h hcode
  ⟨structured_of_diags hdiags, ret, params, hparams, ⟨fix⟩⟩

/-- An accepted method has registers and locals of sixteen bits. -/
theorem slots_le : m.numRegs ≤ kMaxU16 ∧ m.numLocals ≤ kMaxU16 := by
  have hdiags := (accepted_diags h hcode).1
  unfold structuralDiags at hdiags
  obtain ⟨hdiags, -⟩ := append_eq_nil_iff.mp hdiags
  obtain ⟨hdiags, -⟩ := append_eq_nil_iff.mp hdiags
  obtain ⟨hguards, -⟩ := append_eq_nil_iff.mp hdiags
  rw [map_eq_nil_iff] at hguards
  unfold guardMsgs at hguards
  obtain ⟨hguards, hlocals⟩ := append_eq_nil_iff.mp hguards
  obtain ⟨-, hregs⟩ := append_eq_nil_iff.mp hguards
  constructor
  · by_contra hc
    rw [if_pos (Nat.lt_of_not_le hc)] at hregs
    cases hregs
  · by_contra hc
    rw [if_pos (Nat.lt_of_not_le hc)] at hlocals
    cases hlocals

end

/-! ## Paths and the fixpoint -/

section Invariant

variable {m : Method} {ret : RetScan} {params : List RType}

theorem isLeader_blockOf (pc : Nat) : isLeader m (blockOf m pc) = true := by
  induction pc with
  | zero => exact isLeader_zero
  | succ pc ih =>
    rw [blockOf]
    split
    · assumption
    · exact ih

/-- The in-state of the block around `pc`, carried to `pc`, agrees with the path. -/
def Tracked (fix : Fixpoint m ret params) (pc : Nat) (P : PathState) : Prop :=
  ∃ S, fix.wl.inAt (blockOf m pc) = some S ∧ Agree (flowTo (blockOf m pc) S (pc - blockOf m pc)) P

variable {P : PathState}

/-- The entry state holds no register. -/
theorem entryState_reg (m : Method) (params : List RType) (r : Nat) :
    (entryState m params).reg r = .bottom := by
  show (replicate m.numRegs RType.bottom).getD r .bottom = .bottom
  rw [getD_eq_getElem?_getD, getElem?_replicate]
  split <;> rfl

theorem agree_entry (hparams : parseParams m.descriptor = some params) (hP : Entry m P) :
    Agree (entryState m params) P := by
  obtain ⟨hregs, params', hparams', hlocals⟩ := hP
  rw [hparams] at hparams'
  cases hparams'
  refine ⟨fun r _ => ?_, fun i => RType.fits_of_holds (hlocals i)⟩
  rw [entryState_reg]
  exact RType.Fits.bottom _

/-- The check of an instruction in the tracked state. -/
theorem Fixpoint.checkIns_at (fix : Fixpoint m ret params) {pc : Nat}
    (hpc : pc < m.code.length) {S : FlowState m}
    (hS : fix.wl.inAt (blockOf m pc) = some S) :
    checkIns ret pc (codeAt m pc) (flowTo (blockOf m pc) S (pc - blockOf m pc)) = [] := by
  have hle := blockOf_le (m := m) pc
  obtain ⟨k, hlt, _, hpcs, _⟩ := blockPcs_blockOf hpc
  have hcheck := fix.checked _ S hS (by omega) (isLeader_blockOf pc) k hpcs
    (pc - blockOf m pc) (by omega)
  rwa [show blockOf m pc + (pc - blockOf m pc) = pc by omega] at hcheck

/-- The in-state of the block around `pc'`, carried to `pc'`, lies below `S`. -/
def Fixpoint.BelowAt (fix : Fixpoint m ret params) (pc' : Nat) (S : FlowState m) : Prop :=
  ∃ S', fix.wl.inAt (blockOf m pc') = some S' ∧ flowTo (blockOf m pc') S' (pc' - blockOf m pc') ≤ S

theorem Fixpoint.belowAt_of_absorbs (fix : Fixpoint m ret params) {pc : Nat} {T : FlowState m}
    (habs : Worklist.Absorbs fix.wl pc T) (hlead : isLeader m pc = true) :
    fix.BelowAt pc T := by
  obtain ⟨S, hS, hle⟩ := habs
  refine ⟨S, ?_, ?_⟩
  · rw [blockOf_of_leader hlead]
    exact hS
  · rw [blockOf_of_leader hlead, Nat.sub_self]
    exact hle

theorem Structured.nextPcs_lt (hst : Structured m) {pc pc' : Nat} (hpc : pc < m.code.length)
    (hnext : pc' ∈ nextPcs m pc) : pc' < m.code.length := by
  unfold nextPcs at hnext
  rcases mem_append.mp hnext with hfall | hjump
  · split at hfall
    · rename_i hcan
      rw [mem_singleton] at hfall
      by_contra hcon
      have hlast : pc = m.code.length - 1 := by omega
      rcases hst.last with hno | hzero
      · rw [← hlast, hcan] at hno
        cases hno
      · omega
    · cases hfall
  · exact jumpTargets_lt (branchTargets_subset (hst.instruction pc hpc) pc' hjump)

/-- Control reaches a new block only from the last instruction of a block. -/
theorem Fixpoint.next (hst : Structured m) (fix : Fixpoint m ret params) {pc pc' : Nat}
    {S : FlowState m} (hpc : pc < m.code.length)
    (hS : fix.wl.inAt (blockOf m pc) = some S) (hnext : pc' ∈ nextPcs m pc) :
    fix.BelowAt pc' (stepIns (codeAt m pc) (flowTo (blockOf m pc) S (pc - blockOf m pc))) := by
  have hin := hst.nextPcs_lt hpc hnext
  have hle := blockOf_le (m := m) pc
  obtain ⟨k, hlt, hlen, hpcs, hend⟩ := blockPcs_blockOf hpc
  have hflow : stepIns (codeAt m pc) (flowTo (blockOf m pc) S (pc - blockOf m pc)) =
      flowTo (blockOf m pc) S (pc + 1 - blockOf m pc) := by
    rw [show pc + 1 - blockOf m pc = pc - blockOf m pc + 1 by omega, flowTo,
      show blockOf m pc + (pc - blockOf m pc) = pc by omega]
  rw [hflow]
  -- an edge out of the last instruction of the block
  have hleave : ∀ t, (t = pc + 1 ∧ canFallThrough (codeAt m pc).op = true ∧
      pc + 1 < m.code.length ∨ t ∈ jumpTargets m (codeAt m pc)) → isLeader m t = true →
      (pc + 1 = m.code.length ∨ isLeader m (pc + 1) = true) →
      fix.BelowAt t (flowTo (blockOf m pc) S (pc + 1 - blockOf m pc)) := by
    intro t ht hlead hlast
    have hk : blockOf m pc + k = pc + 1 := by
      by_contra hne
      rcases hlast with hlast | hlast
      · omega
      · have hmem : pc + 1 ∈ blockPcs m (blockOf m pc) := by
          rw [hpcs]
          exact mem_range'_1.mpr ⟨by omega, by omega⟩
        exact absurd hlast (by rw [not_isLeader_of_mem hmem (by omega)]; decide)
    have hlastPc : blockLast m (blockOf m pc) = pc := by
      rw [blockLast_eq (by omega) hpcs]
      omega
    have hsucc : t ∈ succBlocks m pc := by
      unfold succBlocks
      refine mem_foldl_pushSucc.mpr (Or.inr (mem_map.mpr ⟨t, ?_, blockOf_of_leader hlead⟩))
      rcases ht with ⟨rfl, hfall, hin⟩ | hjump
      · apply mem_append_left
        rw [if_pos ⟨hfall, hin⟩]
        exact mem_singleton_self _
      · exact mem_append_right _ hjump
    have hedge : (t, flowTo (blockOf m pc) S k) ∈ blockEdges m (blockOf m pc) S := by
      apply mem_append_right
      rw [hlastPc, hpcs, walkOut_range']
      exact mem_map.mpr ⟨t, hsucc, rfl⟩
    rw [← show k = pc + 1 - blockOf m pc by omega]
    exact fix.belowAt_of_absorbs (fix.closed _ S hS _ hedge) hlead
  unfold nextPcs at hnext
  rcases mem_append.mp hnext with hfall | hjump
  · split at hfall
    · rename_i hcan
      rw [mem_singleton] at hfall
      subst hfall
      by_cases hlead : isLeader m (pc + 1) = true
      · exact hleave (pc + 1) (Or.inl ⟨rfl, hcan, hin⟩) hlead (Or.inr hlead)
      · have hblock := blockOf_succ (m := m) (Bool.eq_false_iff.mpr hlead)
        exact ⟨S, by rw [hblock]; exact hS, by rw [hblock]⟩
    · cases hfall
  · have hmem := branchTargets_subset (hst.instruction pc hpc) pc' hjump
    refine hleave pc' (Or.inr hmem) (isLeader_of_jump hpc hmem) ?_
    by_cases hend' : pc + 1 < m.code.length
    · exact Or.inr (isLeader_of_terminator hpc (isTerminator_of_jump hmem))
    · exact Or.inl (by omega)

theorem Fixpoint.exception (fix : Fixpoint m ret params) {pc : Nat} {S : FlowState m}
    {h : ExceptionHandler} (hpc : pc < m.code.length)
    (hS : fix.wl.inAt (blockOf m pc) = some S) (hmem : h ∈ m.handlers)
    (hcovers : covers m h pc = true) :
    fix.BelowAt h.handler (flowTo (blockOf m pc) S (pc - blockOf m pc)).handlerEntry := by
  have hle := blockOf_le (m := m) pc
  obtain ⟨k, hlt, _, hpcs, _⟩ := blockPcs_blockOf hpc
  have hedge : (blockOf m h.handler, (flowTo (blockOf m pc) S (pc - blockOf m pc)).handlerEntry) ∈
        blockEdges m (blockOf m pc) S := by
    apply mem_append_left
    rw [hpcs]
    refine mem_walkEdges_range' k _ S (pc - blockOf m pc) (by omega) _ ?_
    rw [show blockOf m pc + (pc - blockOf m pc) = pc by omega]
    exact mem_map.mpr ⟨h, mem_filter.mpr ⟨hmem, hcovers⟩, rfl⟩
  have hlead := isLeader_of_handler hmem
  have habs := fix.closed _ S hS _ hedge
  rw [blockOf_of_leader hlead] at habs
  exact fix.belowAt_of_absorbs habs hlead

theorem Fixpoint.BelowAt.tracked {fix : Fixpoint m ret params} {pc : Nat} {S : FlowState m}
    (h : fix.BelowAt pc S) (hagree : Agree S P) : Tracked fix pc P := by
  obtain ⟨S', hS', hle⟩ := h
  exact ⟨S', hS', hagree.mono hle⟩

/-- **The invariant.**  Every path of an accepted method whose unchecked reads are
in order stays in agreement with the fixpoint. -/
theorem tracked_of_path (hst : Structured m) (hcode : 0 < m.code.length)
    (hparams : parseParams m.descriptor = some params) (fix : Fixpoint m ret params)
    (hun : UncheckedReadsOk m) {pc : Nat} (hpath : Path m pc P) :
    pc < m.code.length ∧ Tracked fix pc P := by
  induction hpath with
  | entry hP =>
    exact ⟨hcode, (fix.belowAt_of_absorbs fix.entry isLeader_zero).tracked (agree_entry hparams hP)⟩
  | next hpath hpc hw hnext ih =>
    obtain ⟨_, S, hS, hagree⟩ := ih
    have hstep := agree_step hagree (hst.wellFormed hpc) (fix.checkIns_at hpc hS)
      (hun _ _ hpath hpc) hw
    exact ⟨hst.nextPcs_lt hpc hnext, (fix.next hst hpc hS hnext).tracked hstep⟩
  | @exception pc P hpath hpc h hmem hcov ih =>
    obtain ⟨_, S, hS, hagree⟩ := ih
    have hcovers := hst.covers hmem hcov
    exact ⟨(covers_iff.mp hcovers).2.2.1,
      (fix.exception hpc hS hmem hcovers).tracked hagree.handlerEntry⟩

end Invariant

/-! ## Soundness -/

/-- **Soundness of the verifier.**  In an accepted method every instruction of
every path finds its operands initialised and well typed exactly when those the
verifier does not look at are. -/
theorem accepted_reads_iff (m : Method) (h : (verify m).ok = true) :
    ReadsOk m ↔ UncheckedReadsOk m := by
  constructor
  · intro hreads pc P hpath hpc r hr _
    exact (hreads pc P hpath hpc).1 r hr
  intro hun pc P hpath hpc
  have hcode : 0 < m.code.length := by omega
  obtain ⟨hst, ret, params, hparams, ⟨fix⟩⟩ := accepted h hcode
  obtain ⟨_, S, hS, hagree⟩ := tracked_of_path hst hcode hparams fix hun hpath
  have hwf := hst.wellFormed hpc
  have hcheck := fix.checkIns_at hpc hS
  exact ⟨readOk_of_agree hagree hwf hcheck (hun pc P hpath hpc),
    localReadOk_of_agree hagree hwf hcheck⟩

/-- `static int f(int x) { return x + 5; }` -/
def addFive : Method where
  name := "f"
  descriptor := "(I)I"
  flags := 0x0008
  numRegs := 3
  numLocals := 1
  code := [⟨.iload, 0, 0, 0, 0⟩, ⟨.iconst, 1, 0, 0, 5⟩, ⟨.iadd, 2, 0, 1, 0⟩, ⟨.ireturn, 0, 2, 0, 0⟩]

theorem accepted_reads_iff_addFive :
    (verify addFive).ok = true ∧ (ReadsOk addFive ↔ UncheckedReadsOk addFive) :=
  ⟨by decide +kernel, accepted_reads_iff addFive (by decide +kernel)⟩

/-- A method that stores `r2`, which nothing wrote, into a fresh `int[1]`. -/
def storeUnset : Method where
  name := "f"
  descriptor := "()V"
  flags := 0x0008
  numRegs := 3
  code := [⟨.iconst, 1, 0, 0, 1⟩, ⟨.newArray, 0, 1, 0, 10⟩, ⟨.iconst, 1, 0, 0, 0⟩,
    ⟨.iastore, 2, 0, 1, 0⟩, ⟨.returnVoid, 0, 0, 0, 0⟩]

/-- The slots in front of the first instruction of `storeUnset`. -/
def unsetState : PathState := ⟨fun _ => ⟨.bottom, true⟩, fun _ => .bottom⟩

/-- The verifier accepts a store of an uninitialised register. -/
theorem storeUnset_accepted : (verify storeUnset).ok = true ∧ ¬ReadsOk storeUnset := by
  refine ⟨by decide +kernel, fun hreads => ?_⟩
  have hentry : Path storeUnset 0 unsetState :=
    .entry ⟨fun _ => rfl, [], rfl, fun i => by cases i <;> rfl⟩
  have hone : Path storeUnset 1 (unsetState.setReg 1 ⟨.int, true⟩) :=
    .next hentry (by decide) (.result (d := .int) (by decide) rfl rfl rfl ⟨by decide, rfl⟩)
      (by decide)
  have htwo : Path storeUnset 2 ((unsetState.setReg 1 ⟨.int, true⟩).setReg 0 ⟨.ref, true⟩) :=
    .next hone (by decide) (.result (d := .ref) (by decide) rfl rfl rfl ⟨by decide, rfl⟩)
      (by decide)
  have hthree : Path storeUnset 3
      (((unsetState.setReg 1 ⟨.int, true⟩).setReg 0 ⟨.ref, true⟩).setReg 1 ⟨.int, true⟩) :=
    .next htwo (by decide) (.result (d := .int) (by decide) rfl rfl rfl ⟨by decide, rfl⟩)
      (by decide)
  -- the stored value of the array store at pc 3 is register 2
  have hstored := (hreads 3 _ hthree (by decide)).1 ⟨2, .typed .int, false⟩ (by decide)
  unfold ReadOk at hstored
  exact absurd hstored (by decide)

end B2Compiler.Rbc
