import B2Compiler.Baseline.PlanBuilder
import B2Compiler.Rbc.VerifierSound

/-!
# Live registers and what the analysis finds of them

A register is live at a pc when some path of normal control flow from there reads
it before an instruction on the path overwrites it, with reads and successors as
the tier-0 handlers have them.  The analysis of the plan builder finds such a
register unless the path goes through a gap: a `lookupswitch` without pairs, whose
default it does not follow; a successor whose index does not fit in sixteen bits; a
`putfield_quick`, whose `dst` field it takes for a result; or the receiver of an
instance call with an empty argument window, which it does not count as read.
-/

namespace B2Compiler.Baseline

open Rbc List
open Lib.Sweep (setAt solve)

/-! ## Liveness -/

/-- Does completing the instruction replace the content of a register?  A quickened
call may be void, so it does not count. -/
def Overwrites (m : Method) (ins : Ins) (r : Nat) : Prop :=
  ins.dstReg = r ∧
    (((resultType m ins).isSome = true ∧ dropsResult m ins = false) ∨ ins.op = .getfieldQuick)

/-- Does the handler of the instruction read a register?  A `multianewarray` of no
dimensions raises before it looks at one. -/
def ReadsReg (m : Method) (ins : Ins) (r : Nat) : Prop :=
  (∃ rd ∈ reads m ins, rd.reg = r) ∧ (ins.op = .multianewarray → ins.bReg ≠ 0)

/-- Some path from `p` reads the register before overwriting it. -/
inductive LiveAt (m : Method) (r : Nat) : Nat → Prop where
  | read {p : Nat} (hp : p < m.code.length) (hr : ReadsReg m (codeAt m p) r) : LiveAt m r p
  | step {p q : Nat} (hp : p < m.code.length) (hw : ¬Overwrites m (codeAt m p) r)
      (hq : q ∈ nextPcs m p) (hlive : LiveAt m r q) : LiveAt m r p

/-- The calls whose receiver is looked at before anything else. -/
def isInstanceCall : Op → Bool
  | .invokevirtual | .invokespecial | .invokeinterface => true
  | .invokevirtualQuick | .invokespecialQuick | .invokeinterfaceQuick => true
  | _ => false

/-- The read of a receiver in front of an empty argument window. -/
def ReadGap (ins : Ins) (r : Nat) : Prop :=
  isInstanceCall ins.op = true ∧ ins.bReg = 0 ∧ ins.aReg = r

/-- What the analysis does not see of the step from `p` to `q`. -/
def StepGap (m : Method) (r p q : Nat) : Prop :=
  ((codeAt m p).op = .lookupswitch ∧
      ∃ tbl, switchPayload m (codeAt m p) = some tbl ∧ tbl.length = 2) ∨
    2 ^ 16 ≤ q ∨ ((codeAt m p).op = .putfieldQuick ∧ (codeAt m p).dstReg = r)

/-- Some path from `p` reads the register before overwriting it, and goes through a
gap on the way. -/
inductive MissedAt (m : Method) (r : Nat) : Nat → Prop where
  | read {p : Nat} (hp : p < m.code.length) (hr : ReadsReg m (codeAt m p) r)
      (hgap : ReadGap (codeAt m p) r) : MissedAt m r p
  | gap {p q : Nat} (hp : p < m.code.length) (hw : ¬Overwrites m (codeAt m p) r)
      (hq : q ∈ nextPcs m p) (hgap : StepGap m r p q) (hlive : LiveAt m r q) : MissedAt m r p
  | step {p q : Nat} (hp : p < m.code.length) (hw : ¬Overwrites m (codeAt m p) r)
      (hq : q ∈ nextPcs m p) (hmissed : MissedAt m r q) : MissedAt m r p

theorem MissedAt.liveAt {m : Method} {r p : Nat} (h : MissedAt m r p) : LiveAt m r p := by
  induction h with
  | read hp hr _ => exact .read hp hr
  | gap hp hw hq _ hlive => exact .step hp hw hq hlive
  | step hp hw hq _ ih => exact .step hp hw hq ih

theorem LiveAt.lt {m : Method} {r p : Nat} (h : LiveAt m r p) : p < m.code.length := by
  cases h with
  | read hp | step hp => exact hp

/-! ## The transfer function -/

section Transfer

variable {m : Method} {p r : Nat}

theorem mem_union_succs (ss : List Nat) (live : Nat → Finset Nat) :
    r ∈ ss.foldr (fun s acc => live s ∪ acc) ∅ ↔ ∃ s ∈ ss, r ∈ live s := by
  induction ss with
  | nil => simp
  | cons s ss ih => simp [ih]

theorem mem_insert_reads (rs : List Nat) (S : Finset Nat) :
    r ∈ rs.foldr insert S ↔ r ∈ rs ∨ r ∈ S := by
  induction rs with
  | nil => simp
  | cons q rs ih => simp [ih, or_assoc]

/-- A register is live before an instruction that reads it, and before one that does
not define it if it is live at a recorded successor. -/
theorem mem_liveTransfer (live : Nat → Finset Nat) : r ∈ liveTransfer m p live ↔
      r ∈ appendRegReads (codeAt m p) ∨
        (¬(definesDst (codeAt m p) = true ∧ (codeAt m p).dstReg = r) ∧
          ∃ s ∈ succs m p, r ∈ live s) := by
  unfold liveTransfer
  dsimp only
  rw [mem_insert_reads]
  by_cases hd : definesDst (codeAt m p) = true
  · rw [if_pos hd, Finset.mem_erase, mem_union_succs]
    simp only [hd, true_and, ne_eq, eq_comm]
  · rw [if_neg hd, mem_union_succs]
    simp [hd]

theorem liveTransfer_mono : Lib.Sweep.Monotone (liveTransfer m) := by
  intro p g h hgh r hr
  rw [mem_liveTransfer] at hr ⊢
  rcases hr with hr | ⟨hdef, s, hs, hr⟩
  · exact Or.inl hr
  · exact Or.inr ⟨hdef, s, hs, hgh s hr⟩

/-- All registers some instruction reads. -/
def readRegs (m : Method) : Finset Nat := (m.code.flatMap appendRegReads).toFinset

theorem appendRegReads_nop : appendRegReads ⟨.nop, 0, 0, 0, 0⟩ = [] := rfl

/-- Only registers that are read somewhere become live. -/
theorem liveTransfer_subset (g : Nat → Finset Nat) (hg : ∀ q, g q ⊆ readRegs m) :
    liveTransfer m p g ⊆ readRegs m := by
  intro r hr
  rw [mem_liveTransfer] at hr
  rcases hr with hr | ⟨_, s, _, hr⟩
  · rw [readRegs, mem_toFinset, mem_flatMap]
    by_cases hp : p < m.code.length
    · exact ⟨codeAt m p, mem_of_getElem? (codeAt_eq hp), hr⟩
    · have hnone : m.code[p]? = none := getElem?_eq_none (by omega)
      rw [codeAt, getD_eq_getElem?_getD, hnone, Option.getD_none, appendRegReads_nop] at hr
      cases hr
  · exact hg s hr

theorem computeLiveness_spec (m : Method) : ∃ live, computeLiveness m = some live ∧
      ∀ p, p < m.code.length → liveTransfer m p (setAt live) = setAt live p := by
  have hgrow : Lib.Sweep.Growing (liveTransfer m) (replicate m.code.length ∅) := by
    intro p
    have hempty : setAt (replicate m.code.length (∅ : Finset Nat)) p = ∅ := by
      simp only [setAt, getD_eq_getElem?_getD, getElem?_replicate]
      split <;> rfl
    rw [hempty]
    exact Finset.empty_subset _
  have hin : Lib.Sweep.Within (readRegs m) (replicate m.code.length ∅) := by
    intro s hs
    rw [eq_of_mem_replicate hs]
    exact Finset.empty_subset _
  have hfuel : m.code.length * (readRegs m).card <
      Lib.Sweep.total (replicate m.code.length (∅ : Finset Nat)) + livenessBudget m := by
    unfold livenessBudget readRegs
    omega
  obtain ⟨live, hsolve, _, hfix⟩ := Lib.Sweep.solve_spec liveTransfer_mono
    (fun p g hg => liveTransfer_subset g hg) (length_replicate ..) hgrow hin hfuel
  exact ⟨live, hsolve, hfix⟩

end Transfer

/-! ## Reads and successors the analysis records -/

section Records

variable {m : Method} {ins : Ins} {p q r : Nat}

theorem mem_argRegs {i : Nat} (hi : i < ins.bReg) (hr : ins.aReg + i = r) (hlt : r < 2 ^ 16) :
    r ∈ argRegs ins := by
  rw [argRegs, mem_map]
  exact ⟨i, mem_range.mpr hi, by rw [hr, Nat.mod_eq_of_lt hlt]⟩

variable {rd : Read} {v : List (BitVec 32)}

theorem mem_windowReads {needs : List Need} (h : rd ∈ windowReads ins needs) (hreg : rd.reg = r)
    (hlt : r < 2 ^ 16) : r ∈ argRegs ins := by
  obtain ⟨i, hi, rfl⟩ := mem_map.mp h
  exact mem_argRegs (mem_range.mp hi) hreg hlt

/-- A typed operand `a` outside calls and dimension lists is recorded. -/
theorem recorded_a (ha : (regUse (info ins.op).sig).a = true)
    (hop : (info ins.op).operandA ≠ .bottom) (hdims : ins.op ≠ .multianewarray) :
    ins.aReg ∈ appendRegReads ins := by
  have hcall := call_has_no_table_operands ins.op
  unfold appendRegReads
  split <;> rename_i hsig <;> rw [hsig] at ha hcall <;>
    first
    | exact absurd ha (by decide)
    | exact mem_singleton_self _
    | exact mem_cons_self
    | (split <;> simp)
    | skip
  all_goals simp_all

theorem recorded_b (hb : (regUse (info ins.op).sig).b = true)
    (hop : (info ins.op).operandB ≠ .bottom) : ins.bReg ∈ appendRegReads ins := by
  unfold appendRegReads
  split <;> rename_i hsig <;> rw [hsig] at hb <;>
    first
    | exact absurd hb (by decide)
    | skip
  · split <;> simp
  · split
    · rename_i hdims
      rw [hdims] at hop
      exact absurd rfl hop
    · simp
  · simp

theorem recorded_table (hrd : rd ∈ tableReads ins) (hreg : rd.reg = r) (hlt : r < 2 ^ 16)
    (hdims : ins.op = .multianewarray → ins.bReg ≠ 0) : r ∈ appendRegReads ins := by
  unfold tableReads at hrd
  rcases mem_append.mp hrd with hrd | hrd
  · split at hrd
    · rename_i h
      rw [mem_singleton] at hrd
      subst hrd
      subst hreg
      by_cases hmulti : ins.op = .multianewarray
      · have hpos : 0 < ins.bReg := Nat.pos_of_ne_zero (hdims hmulti)
        have hmem : ins.aReg ∈ argRegs ins := mem_argRegs hpos (Nat.add_zero _) hlt
        unfold appendRegReads
        rw [hmulti]
        exact hmem
      · exact recorded_a h.1 h.2 hmulti
    · cases hrd
  · split at hrd
    · rename_i h
      rw [mem_singleton] at hrd
      subst hrd
      subst hreg
      exact recorded_b h.1 h.2
    · cases hrd

theorem recorded_extra (hrd : rd ∈ extraReads m ins) (hreg : rd.reg = r) (hlt : r < 2 ^ 16) :
    r ∈ appendRegReads ins ∨ ReadGap ins r := by
  have hwindow : ∀ needs, rd ∈ windowReads ins needs → appendRegReads ins = argRegs ins →
      r ∈ appendRegReads ins ∨ ReadGap ins r := by
    intro needs h heq
    rw [heq]
    exact Or.inl (mem_windowReads h hreg hlt)
  have hreceiver : rd = receiverRead ins → appendRegReads ins = argRegs ins →
      isInstanceCall ins.op = true → r ∈ appendRegReads ins ∨ ReadGap ins r := by
    intro h heq hcall
    subst h
    by_cases hb : ins.bReg = 0
    · exact Or.inr ⟨hcall, hb, hreg⟩
    · rw [heq]
      exact Or.inl (mem_argRegs (Nat.pos_of_ne_zero hb) hreg hlt)
  have hargs : ins.op = .multianewarray ∨ (info ins.op).sig = .call ∨
      (info ins.op).sig = .callQuick → appendRegReads ins = argRegs ins := by
    rintro (h | h | h)
    · simp [appendRegReads, h, info]
    all_goals simp [appendRegReads, h]
  unfold extraReads at hrd
  split at hrd <;> rename_i hop
  -- the operands of stores and of `iinc`
  case h_2 | h_3 | h_4 | h_5 | h_6 | h_7 | h_8 | h_9 =>
    rw [mem_singleton] at hrd
    subst hrd
    simp [appendRegReads, hop, info, isArrayStoreOp, ← hreg]
  case h_1 | h_10 | h_11 | h_12 =>
    rw [mem_singleton] at hrd
    subst hrd
    simp [appendRegReads, hop, info, ← hreg]
  case h_13 => exact hwindow _ (mem_of_mem_tail hrd) (hargs (Or.inl hop))
  -- argument windows, with a receiver in front for instance calls
  case h_17 => exact hwindow _ hrd (hargs (Or.inr (Or.inl (by rw [hop]; rfl))))
  case h_21 => exact hwindow _ hrd (hargs (Or.inr (Or.inr (by rw [hop]; rfl))))
  case h_14 | h_15 | h_16 =>
    have heq := hargs (Or.inr (Or.inl (by rw [hop]; rfl)))
    rcases mem_cons.mp hrd with hrd | hrd
    · exact hreceiver hrd heq (by rw [hop]; rfl)
    · exact hwindow _ hrd heq
  case h_18 | h_19 | h_20 =>
    have heq := hargs (Or.inr (Or.inr (by rw [hop]; rfl)))
    rcases mem_cons.mp hrd with hrd | hrd
    · exact hreceiver hrd heq (by rw [hop]; rfl)
    · exact hwindow _ hrd heq
  case h_22 => cases hrd

theorem reads_recorded (hr : ReadsReg m ins r) (hlt : r < 2 ^ 16) :
    r ∈ appendRegReads ins ∨ ReadGap ins r := by
  obtain ⟨⟨rd, hrd, hreg⟩, hdims⟩ := hr
  rcases mem_append.mp hrd with hrd | hrd
  · exact Or.inl (recorded_table hrd hreg hlt hdims)
  · exact recorded_extra hrd hreg hlt

/-! ### Definitions -/

/-- A pool entry of a field access exists and is a field reference. -/
theorem cpAt_of_structure {pc : Nat} (h : structureMsgs m pc ins = [])
    (hcp : sigUsesCpIndex (info ins.op).sig = true) : ∃ c, cpAt m ins = some c := by
  unfold structureMsgs at h
  dsimp only at h
  obtain ⟨h, _⟩ := append_eq_nil_iff.mp h
  obtain ⟨h, _⟩ := append_eq_nil_iff.mp h
  obtain ⟨_, hpool⟩ := append_eq_nil_iff.mp h
  rw [if_pos (Or.inl hcp)] at hpool
  unfold cpAt
  split at hpool
  · cases hpool
  · rename_i c hc
    split at hpool
    · rename_i hk
      exact ⟨c, by rw [hc]; exact if_pos hk⟩
    · cases hpool

/-- The opcodes the analysis takes for definitions write a result, or store a
quickened field. -/
theorem definer_row (op : Op) (h : definesDst ⟨op, 0, 0, 0, 0⟩ = true) :
    isInvoke op = false ∧ (op = .getfieldQuick ∨ op = .putfieldQuick ∨
      ((op = .getfield ∨ op = .getstatic) ∧ sigUsesCpIndex (info op).sig = true) ∨
      ((info op).result ≠ .bottom ∧ op ≠ .getfield ∧ op ≠ .getstatic)) := by
  revert h
  cases op <;> decide

/-- An instruction the analysis takes for a definition overwrites its `dst`, unless
it is a `putfield_quick`. -/
theorem overwrites_of_defines {pc : Nat} (h : structureMsgs m pc ins = [])
    (hdef : definesDst ins = true) (hquick : ins.op ≠ .putfieldQuick) :
    Overwrites m ins ins.dstReg := by
  have hrow := definer_row ins.op hdef
  have hkept : dropsResult m ins = false := by
    unfold dropsResult
    rw [hrow.1]
    rfl
  refine ⟨rfl, ?_⟩
  rcases hrow.2 with hop | hop | ⟨hop, hcp⟩ | ⟨hres, hf, hs⟩
  · exact Or.inr hop
  · exact absurd hop hquick
  · obtain ⟨c, hc⟩ := cpAt_of_structure h hcp
    refine Or.inl ⟨?_, hkept⟩
    unfold resultType
    rw [if_pos hop, hc]
    rfl
  · refine Or.inl ⟨?_, hkept⟩
    rw [resultType_of_table hf hs hrow.1, if_pos hres]
    rfl

/-! ### Successors -/

theorem mem_addSucc {n : Nat} (hq : q < n) (hlt : q < 2 ^ 16) : q ∈ addSucc n q := by
  rw [addSucc, if_pos hq, Nat.mod_eq_of_lt hlt]
  exact mem_singleton_self q

theorem mem_pairTargets (v : List (BitVec 32)) (i : Nat) (hi : 2 * i + 1 < v.length) :
    v.getD (2 * i + 1) 0 ∈ pairTargets v := by
  induction i generalizing v with
  | zero =>
    match v, hi with
    | _ :: t :: rest, _ => exact mem_cons_self
  | succ i ih =>
    match v, hi with
    | _ :: t :: rest, hi =>
      have hrest : 2 * i + 1 < rest.length := by
        simp only [length_cons] at hi
        omega
      exact mem_cons_of_mem t (ih rest hrest)

theorem fall_row (op : Op) (h : canFallThrough op = true) :
    (info op).sig ≠ .branch ∧ (info op).sig ≠ .regCpBranch ∧ (info op).sig ≠ .trap ∧
      ((info op).sig = .reg → op = .monitorenter ∨ op = .monitorexit) := by
  revert h
  cases op <;> decide

theorem switch_row (op : Op) (h : (info op).sig = .regCpBranch) :
    isBranchSig (info op).sig = false ∧ (op = .tableswitch ∨ op = .lookupswitch) := by
  revert h
  cases op <;> decide

theorem fall_recorded (hfall : canFallThrough (codeAt m p).op = true)
    (hlt : p + 1 < m.code.length) (h16 : p + 1 < 2 ^ 16) : p + 1 ∈ succs m p := by
  obtain ⟨hbranch, hswitch, htrap, hreg⟩ := fall_row _ hfall
  have hnext := mem_addSucc hlt h16
  unfold succs
  dsimp only
  split
  · rename_i hsig
    exact absurd hsig hbranch
  · exact mem_append_right _ hnext
  · exact mem_append_right _ hnext
  · rename_i hsig
    exact absurd hsig hswitch
  · rename_i hsig
    rw [if_neg]
    · exact hnext
    · rintro ⟨h₁, h₂⟩
      rcases hreg hsig with h | h
      · exact h₁ h
      · exact h₂ h
  · rename_i hsig
    exact absurd hsig htrap
  · exact hnext

theorem branch_recorded (hsig : isBranchSig (info (codeAt m p).op).sig = true)
    (hlt : (codeAt m p).immIdx < m.code.length) (h16 : (codeAt m p).immIdx < 2 ^ 16) :
    (codeAt m p).immIdx ∈ succs m p := by
  have htarget := mem_addSucc hlt h16
  unfold succs
  dsimp only
  split
  case h_1 => exact htarget
  case h_2 | h_3 => exact mem_append_left _ htarget
  case h_4 h | h_5 h | h_6 h =>
    rw [h] at hsig
    exact absurd hsig (by decide)
  rename_i h₁ h₂ h₃ _ _ _
  simp only [isBranchSig, Bool.or_eq_true, decide_eq_true_eq] at hsig
  rcases hsig with (h | h) | h
  · exact absurd h h₁
  · exact absurd h h₂
  · exact absurd h h₃

theorem length_lookup {op : Op} (hop : op ≠ .tableswitch) (h : switchShape op v = []) :
    v.length = 2 + 2 * (v.getD 0 0).toNat := by
  obtain ⟨-, hnonneg, hlen⟩ := lookup_shape hop h
  rw [BitVec.toInt_eq_toNat_of_msb (BitVec.msb_eq_false_iff_two_mul_lt.mpr ?_)] at hlen
  · omega
  · have := BitVec.toInt_eq_toNat_cond (v.getD 0 0)
    split at this <;> omega

theorem word_of_lookup {op : Op} {w : BitVec 32} (hop : op ≠ .tableswitch)
    (hshape : switchShape op v = []) (hw : w ∈ switchWords op v) :
    w = v.getD 1 0 ∨ w ∈ pairTargets (v.drop 2) := by
  have hlen := length_lookup hop hshape
  unfold switchWords at hw
  rw [if_neg hop] at hw
  rcases mem_append.mp hw with hw | hw
  · right
    obtain ⟨i, hi, rfl⟩ := mem_map.mp hw
    rw [mem_range] at hi
    have hmem := mem_pairTargets (v.drop 2) i (by rw [length_drop]; omega)
    rw [getD_eq_getElem?_getD, getElem?_drop, ← getD_eq_getElem?_getD] at hmem
    rwa [show 2 + (2 * i + 1) = 3 + 2 * i by omega] at hmem
  · left
    exact mem_singleton.mp hw

theorem switch_recorded (hsig : (info (codeAt m p).op).sig = .regCpBranch)
    (hpay : switchPayload m (codeAt m p) = some v) (hshape : switchShape (codeAt m p).op v = [])
    (hlen : 3 ≤ v.length) {w : BitVec 32} (hw : w ∈ switchWords (codeAt m p).op v)
    (hlt : w.toNat < m.code.length) (h16 : w.toNat < 2 ^ 16) : w.toNat ∈ succs m p := by
  have htarget := mem_addSucc hlt h16
  unfold succs
  dsimp only
  rw [hsig]
  dsimp only
  rw [hpay]
  dsimp only
  rw [if_pos hlen]
  by_cases htable : (codeAt m p).op = .tableswitch
  · rw [if_pos htable]
    unfold switchWords at hw
    rw [if_pos htable] at hw
    exact mem_flatMap.mpr ⟨w, hw, htarget⟩
  · rw [if_neg htable]
    rcases word_of_lookup htable hshape hw with rfl | hpair
    · exact mem_append_left _ htarget
    · exact mem_append_right _ (mem_flatMap.mpr ⟨w, hpair, htarget⟩)

/-- Every normal successor that is an instruction is recorded, gaps apart. -/
theorem succs_recorded (hst : Structured m) (hp : p < m.code.length) (hq : q ∈ nextPcs m p)
    (hlt : q < m.code.length) (hgap : ¬StepGap m r p q) : q ∈ succs m p := by
  have hq16 : q < 2 ^ 16 := by
    by_contra hc
    exact hgap (Or.inr (Or.inl (by omega)))
  unfold nextPcs at hq
  dsimp only at hq
  rcases mem_append.mp hq with hq | hq
  · split at hq
    · rename_i hfall
      rw [mem_singleton] at hq
      subst hq
      exact fall_recorded hfall hlt hq16
    · cases hq
  · unfold branchTargets at hq
    dsimp only at hq
    by_cases hbr : isBranchSig (info (codeAt m p).op).sig = true
    · rw [if_pos hbr, mem_singleton] at hq
      subst hq
      exact branch_recorded hbr hlt hq16
    rw [if_neg hbr] at hq
    by_cases hsig : (info (codeAt m p).op).sig = .regCpBranch
    · rw [if_pos hsig] at hq
      have hmsgs := (structure_parts (hst.instruction p hp)).2.2 hsig
      cases hpay : switchPayload m (codeAt m p) with
      | none =>
        rw [hpay] at hq
        cases hq
      | some v =>
        obtain ⟨hshape, -⟩ := switch_clean hpay hmsgs
        rw [hpay] at hq
        obtain ⟨w, hw, rfl⟩ := mem_map.mp hq
        have hlen : 3 ≤ v.length := by
          rcases (switch_row _ hsig).2 with hop | hop
          · rw [hop] at hshape
            exact (table_shape rfl hshape).1
          · -- two entries are a lookup without pairs
            have hshort := length_lookup (by rw [hop]; decide) hshape
            by_contra hc
            exact hgap (Or.inl ⟨hop, v, hpay, by omega⟩)
        exact switch_recorded hsig hpay hshape hlen hw hlt hq16
    · rw [if_neg hsig] at hq
      cases hq

variable {live : List (Finset Nat)} (hst : Structured m)
  (hfix : ∀ p, p < m.code.length → liveTransfer m p (setAt live) = setAt live p)
include hst hfix

/-- A register live at a successor is live before an instruction that does not overwrite
it, unless the step is a gap. -/
theorem live_of_succ
    (hp : p < m.code.length) (hw : ¬Overwrites m (codeAt m p) r) (hq : q ∈ nextPcs m p)
    (hlt : q < m.code.length) (hgap : ¬StepGap m r p q) (hmem : r ∈ setAt live q) :
    r ∈ setAt live p := by
  rw [← hfix p hp, mem_liveTransfer]
  refine Or.inr ⟨?_, q, succs_recorded hst hp hq hlt hgap, hmem⟩
  rintro ⟨hdef, hdst⟩
  -- the register survives, so what looks like its definition is a quickened store
  have hquick : (codeAt m p).op = .putfieldQuick := by
    by_contra hne
    have hover := overwrites_of_defines (hst.instruction p hp) hdef hne
    rw [hdst] at hover
    exact hw hover
  exact hgap (Or.inr (Or.inr ⟨hquick, hdst⟩))

/-- **What the analysis finds.**  A live register is in the computed set unless the
path that reads it goes through a gap. -/
theorem live_found (hlt : r < 2 ^ 16) (h : LiveAt m r p) : r ∈ setAt live p ∨ MissedAt m r p := by
  induction h with
  | @read p hp hr =>
    rcases reads_recorded hr hlt with hmem | hgap
    · left
      rw [← hfix p hp, mem_liveTransfer]
      exact Or.inl hmem
    · exact Or.inr (.read hp hr hgap)
  | @step p q hp hw hq hlive ih =>
    by_cases hgap : StepGap m r p q
    · exact Or.inr (.gap hp hw hq hgap hlive)
    · rcases ih with hmem | hmissed
      · exact Or.inl (live_of_succ hst hfix hp hw hq hlive.lt hgap hmem)
      · exact Or.inr (.step hp hw hq hmissed)

end Records

end B2Compiler.Baseline
