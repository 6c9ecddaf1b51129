import B2Compiler.Rbc.Paths

/-!
# One instruction of an accepted method

The types along a path are compared with the state of the analysis at the same
point.  When they agree in front of an instruction whose check passed, every
operand the verifier compares is initialised and well typed along the path, and
the slots agree again behind the instruction.
-/

namespace B2Compiler.Rbc

open Lib List

/-! ## Types along a path against types of the analysis -/

namespace RType

/-- The reference types. -/
def isRefLike (t : RType) : Bool := t = .null || t = .ref

/-- A value of type `t` where the analysis has `s`: the analysis may know
nothing, and does not tell null from other references. -/
def Fits (t s : RType) : Prop :=
  s = .bottom ∨ t = s ∨ (isRefLike t = true ∧ isRefLike s = true)

theorem Fits.bottom (t : RType) : Fits t .bottom := Or.inl rfl

theorem Fits.refl (t : RType) : Fits t t := Or.inr (Or.inl rfl)

variable {t s d : RType}

theorem Fits.mono {s' : RType} (h : Fits t s) (hle : s' ≤ s) : Fits t s' := by
  have hjoin : join s' s = s' := inf_eq_left.mpr hle
  revert h hjoin
  unfold Fits
  cases t <;> cases s <;> cases s' <;> decide

theorem fits_of_isAssignable (h : isAssignable t d = true) : Fits t d := by
  revert h
  unfold Fits
  cases t <;> cases d <;> decide

/-- Two types assignable to the same operand fit each other. -/
theorem fits_of_both (ht : isAssignable t d = true) (hs : isAssignable s d = true) : Fits t s := by
  revert ht hs
  unfold Fits
  cases t <;> cases s <;> cases d <;> decide

/-- An operand the analysis accepts is accepted along the path. -/
theorem Fits.met (h : Fits t s) (hs : isAssignable s d = true) (hd : d ≠ .bottom)
    (hnull : d ≠ .null) : (Need.typed d).met t = true := by
  revert h hs hd hnull
  unfold Fits
  cases t <;> cases s <;> cases d <;> decide

theorem fits_of_holds (h : Holds t d) : Fits t d := by
  unfold Holds at h
  by_cases hd : d = .bottom
  · exact Or.inl hd
  · rw [if_neg hd] at h
    exact fits_of_isAssignable h.2

theorem isAssignable_of_met (h : (Need.typed d).met t = true) : isAssignable t d = true := by
  simp only [Need.met, Bool.and_eq_true] at h
  exact h.2

end RType

open RType (Fits)

/-! ## Flow states slot by slot -/

namespace FlowState

variable {m : Method}

theorem getD_set {ts : List RType} {i : Nat} (hi : i < ts.length) (t : RType) (j : Nat) :
    (ts.set i t).getD j .bottom = if j = i then t else ts.getD j .bottom := by
  by_cases hj : j = i
  · simp [getD_eq_getElem?_getD, hj, hi]
  · simp [getD_eq_getElem?_getD, hj, getElem?_set_ne (Ne.symm hj)]

theorem reg_setReg (S : FlowState m) {r : Nat} (t : RType) (hr : r < m.numRegs) (q : Nat) :
    (S.setReg r t).reg q = if q = r then t else S.reg q :=
  getD_set (S.regs_size ▸ hr) t q

theorem loc_setLoc (S : FlowState m) {i : Nat} (t : RType) (hi : i < m.numLocals) (j : Nat) :
    (S.setLoc i t).loc j = if j = i then t else S.loc j :=
  getD_set (S.locals_size ▸ hi) t j

theorem getD_zipWith_join (as bs : List RType) (hlen : as.length = bs.length) (i : Nat) :
    (zipWith RType.join as bs).getD i .bottom =
      RType.join (as.getD i .bottom) (bs.getD i .bottom) := by
  by_cases hi : i < as.length
  · have hi' : i < bs.length := by omega
    simp [getD_eq_getElem?_getD, hi, hi']
  have hi' : ¬i < bs.length := by omega
  have hz : ¬i < (zipWith RType.join as bs).length := by
    rw [length_zipWith]; omega
  simp only [getD_eq_getElem?_getD, getElem?_eq_none (Nat.le_of_not_lt hi),
    getElem?_eq_none (Nat.le_of_not_lt hi'), getElem?_eq_none (Nat.le_of_not_lt hz)]
  rfl

theorem reg_mono {S T : FlowState m} (h : S ≤ T) (r : Nat) : S.reg r ≤ T.reg r := by
  have hinf : S ⊓ T = S := inf_eq_left.mpr h
  have hregs : zipWith RType.join S.regs T.regs = S.regs := congrArg FlowState.regs hinf
  have hlen : S.regs.length = T.regs.length := by rw [S.regs_size, T.regs_size]
  have hr := getD_zipWith_join S.regs T.regs hlen r
  rw [hregs] at hr
  exact inf_eq_left.mp hr.symm

theorem loc_mono {S T : FlowState m} (h : S ≤ T) (i : Nat) : S.loc i ≤ T.loc i := by
  have hinf : S ⊓ T = S := inf_eq_left.mpr h
  have hlocs : zipWith RType.join S.locals T.locals = S.locals :=
    congrArg FlowState.locals hinf
  have hlen : S.locals.length = T.locals.length := by rw [S.locals_size, T.locals_size]
  have hi := getD_zipWith_join S.locals T.locals hlen i
  rw [hlocs] at hi
  exact inf_eq_left.mp hi.symm

theorem reg_handlerEntry (S : FlowState m) (r : Nat) :
    S.handlerEntry.reg r = .bottom ∨ (r = 0 ∧ S.handlerEntry.reg r = .ref) := by
  have hreg : S.handlerEntry.reg r =
      ((replicate m.numRegs RType.bottom).set 0 .ref).getD r .bottom := rfl
  rw [hreg]
  by_cases hr : r = 0
  · subst hr
    generalize m.numRegs = n
    cases n with
    | zero => exact Or.inl rfl
    | succ n => exact Or.inr ⟨rfl, rfl⟩
  · left
    rw [getD_eq_getElem?_getD, getElem?_set_ne (Ne.symm hr), getElem?_replicate]
    split <;> rfl

end FlowState

/-- The slots of a path against the state of the analysis.  A register that is
not tracked is unconstrained. -/
structure Agree {m : Method} (S : FlowState m) (P : PathState) : Prop where
  regs : ∀ r, (P.regs r).tracked = true → Fits (P.regs r).type (S.reg r)
  locals : ∀ i, Fits (P.locals i) (S.loc i)

namespace Agree

variable {m : Method} {S T : FlowState m} {P : PathState}

theorem mono (h : Agree T P) (hle : S ≤ T) : Agree S P :=
  ⟨fun r hr => (h.regs r hr).mono (FlowState.reg_mono hle r),
    fun i => (h.locals i).mono (FlowState.loc_mono hle i)⟩

theorem setReg (h : Agree S P) {r : Nat} {t : RType} {c : Cell} (hr : r < m.numRegs)
    (hc : c.tracked = true → Fits c.type t) : Agree (S.setReg r t) (P.setReg r c) := by
  refine ⟨fun q hq => ?_, h.locals⟩
  rw [FlowState.reg_setReg S t hr]
  by_cases hqr : q = r
  · subst hqr
    rw [if_pos rfl]
    simp only [PathState.setReg, Function.update_self] at hq ⊢
    exact hc hq
  · simp only [PathState.setReg, Function.update_of_ne hqr] at hq ⊢
    rw [if_neg hqr]
    exact h.regs q hq

/-- A write the analysis does not see is harmless when the register is no
longer tracked. -/
theorem setReg_untracked (h : Agree S P) (r : Nat) (t : RType) :
    Agree S (P.setReg r ⟨t, false⟩) := by
  refine ⟨fun q hq => ?_, h.locals⟩
  by_cases hqr : q = r
  · subst hqr
    simp [PathState.setReg] at hq
  · simp only [PathState.setReg, Function.update_of_ne hqr] at hq ⊢
    exact h.regs q hq

theorem setLoc (h : Agree S P) {i : Nat} {s t : RType} (hi : i < m.numLocals)
    (ht : Fits t s) : Agree (S.setLoc i s) (P.setLoc i t) := by
  refine ⟨h.regs, fun j => ?_⟩
  rw [FlowState.loc_setLoc S s hi]
  by_cases hji : j = i
  · subst hji
    rw [if_pos rfl]
    simp only [PathState.setLoc, Function.update_self]
    exact ht
  · simp only [PathState.setLoc, Function.update_of_ne hji]
    rw [if_neg hji]
    exact h.locals j

theorem handlerEntry (h : Agree S P) : Agree S.handlerEntry P.handlerEntry := by
  refine ⟨fun r _ => ?_, h.locals⟩
  rcases FlowState.reg_handlerEntry S r with hbot | ⟨rfl, href⟩
  · rw [hbot]
    exact Fits.bottom _
  · rw [href]
    exact Fits.refl _

end Agree

/-! ## The opcode table -/

theorem result_of_regSlot (op : Op) (h : (info op).sig = .regSlot) :
    (info op).result ≠ .bottom ∧ (info op).result ≠ .null ∧ op ≠ .getfield ∧
      op ≠ .getstatic ∧ isInvoke op = false ∧ op ≠ .iinc := by
  revert h
  cases op <;> decide

theorem slotReg_writes_nothing (op : Op) (h : (info op).sig = .slotReg) :
    (info op).result = .bottom ∧ (info op).operandA ≠ .bottom ∧ op ≠ .getfield ∧
      op ≠ .getstatic ∧ isInvoke op = false ∧ op ≠ .iinc := by
  revert h
  cases op <;> decide

theorem call_has_no_table_operands (op : Op)
    (h : (info op).sig = .call ∨ (info op).sig = .callQuick) :
    (info op).operandA = .bottom ∧ (info op).operandB = .bottom := by
  revert h
  cases op <;> decide

theorem operand_ne_null (op : Op) : (info op).operandA ≠ .null ∧ (info op).operandB ≠ .null := by
  cases op <;> decide

theorem move_row (op : Op) (h : isMove op = true) :
    (info op).sig = .regReg ∧ (info op).result = (info op).operandA ∧
      (info op).result ≠ .bottom ∧ op ≠ .getfield ∧ op ≠ .getstatic ∧
      isInvoke op = false ∧ op ≠ .iinc := by
  revert h
  cases op <;> decide

theorem quick_row (op : Op) (h : op = .getfieldQuick ∨ isQuickCall op = true) :
    (info op).result = .bottom ∧ (info op).sig ≠ .regSlot ∧ (info op).sig ≠ .slotReg ∧
      op ≠ .getfield ∧ op ≠ .getstatic ∧ isInvoke op = false ∧ op ≠ .iinc := by
  revert h
  cases op <;> decide

theorem writer_uses_dst (op : Op)
    (h : (info op).result ≠ .bottom ∨ op = .getfield ∨ op = .getstatic ∨ isInvoke op = true) :
    (regUse (info op).sig).dst = true := by
  revert h
  cases op <;> decide

/-! ## One instruction -/

/-- An instruction writes its destination only when the destination is one of
its register operands. -/
theorem dst_of_resultType {m : Method} {ins : Ins} {d : RType}
    (h : resultType m ins = some d) : (regUse (info ins.op).sig).dst = true := by
  apply writer_uses_dst
  unfold resultType at h
  by_cases hget : ins.op = .getfield ∨ ins.op = .getstatic
  · rcases hget with hget | hget
    · exact Or.inr (Or.inl hget)
    · exact Or.inr (Or.inr (Or.inl hget))
  rw [if_neg hget] at h
  by_cases hinv : isInvoke ins.op = true
  · exact Or.inr (Or.inr (Or.inr hinv))
  · rw [if_neg hinv] at h
    by_cases hres : (info ins.op).result ≠ .bottom
    · exact Or.inl hres
    · rw [if_neg hres] at h
      cases h

/-- Off the descriptor-typed opcodes the result is the table's. -/
theorem resultType_of_table {m : Method} {ins : Ins} (hf : ins.op ≠ .getfield)
    (hs : ins.op ≠ .getstatic) (hi : isInvoke ins.op = false) :
    resultType m ins =
      if (info ins.op).result ≠ .bottom then some (info ins.op).result else none := by
  unfold resultType
  rw [if_neg (by rintro (h | h) <;> contradiction), if_neg (by rw [hi]; decide)]

section Step

variable {m : Method} {ins : Ins} {S : FlowState m} {P P' : PathState}

/-- The structural facts about an instruction of an accepted method. -/
structure WellFormed (m : Method) (ins : Ins) : Prop where
  operands : operandsOk m ins = true
  slot : (info ins.op).sig = .regSlot ∨ (info ins.op).sig = .slotReg → ins.immIdx < m.numLocals

theorem WellFormed.operands_lt (hwf : WellFormed m ins) :
    ((regUse (info ins.op).sig).dst = true → ins.dstReg < m.numRegs) ∧
      ((regUse (info ins.op).sig).a = true → ins.aReg < m.numRegs) ∧
      ((regUse (info ins.op).sig).b = true → ins.bReg < m.numRegs) := by
  have h := hwf.operands
  simp only [operandsOk, Bool.not_eq_true', Bool.or_eq_false_iff, Bool.and_eq_false_iff,
    decide_eq_false_iff_not, ge_iff_le, Nat.not_le] at h
  have hlt : ∀ {used : Bool} {r : Nat}, used = false ∨ r < m.numRegs → used = true →
      r < m.numRegs := by
    intro used r hor hused
    rcases hor with hno | hr
    · rw [hused] at hno
      cases hno
    · exact hr
  exact ⟨hlt h.1.1, hlt h.1.2, hlt h.2⟩

theorem WellFormed.dst_lt (hwf : WellFormed m ins)
    (hdst : (regUse (info ins.op).sig).dst = true) : ins.dstReg < m.numRegs :=
  hwf.operands_lt.1 hdst

variable {ret : RetScan} {r : Read}

/-- A compared operand of the table, as the verifier leaves it. -/
theorem checked_operand (hwf : WellFormed m ins) {pc : Nat} (hcheck : checkIns ret pc ins S = [])
    (hr : r ∈ tableReads ins) :
    ∃ d, r.need = .typed d ∧ RType.isAssignable (S.reg r.reg) d = true ∧ d ≠ .bottom ∧
      d ≠ .null := by
  have hnull := operand_ne_null ins.op
  have hops : operandMsgs pc ins S = [] := by
    unfold checkIns at hcheck
    rw [if_neg (by rw [hwf.operands]; decide)] at hcheck
    exact (append_eq_nil_iff.mp hcheck).1
  have hcall : ¬((info ins.op).sig = .call ∨ (info ins.op).sig = .callQuick) := by
    intro hcall
    obtain ⟨ha, hb⟩ := call_has_no_table_operands ins.op hcall
    simp [tableReads, ha, hb] at hr
  unfold operandMsgs at hops
  rw [if_neg hcall] at hops
  obtain ⟨hA, hB⟩ := append_eq_nil_iff.mp hops
  unfold tableReads at hr
  rcases mem_append.mp hr with hr | hr
  · split at hr
    · rename_i hcond
      rw [mem_singleton] at hr
      subst hr
      refine ⟨_, rfl, ?_, hcond.2, hnull.1⟩
      by_contra hass
      rw [if_pos ⟨hcond.1, hcond.2, Bool.eq_false_iff.mpr hass⟩] at hA
      cases hA
    · cases hr
  · split at hr
    · rename_i hcond
      rw [mem_singleton] at hr
      subst hr
      refine ⟨_, rfl, ?_, hcond.2, hnull.2⟩
      by_contra hass
      rw [if_pos ⟨hcond.1, hcond.2, Bool.eq_false_iff.mpr hass⟩] at hB
      cases hB
    · cases hr

theorem windowReads_unchecked {needs : List Need} (hr : r ∈ windowReads ins needs) :
    r.checked = false := by
  unfold windowReads at hr
  obtain ⟨i, _, rfl⟩ := mem_map.mp hr
  rfl

/-- Beyond the table only the increment's register is compared. -/
theorem extraReads_checked (hr : r ∈ extraReads m ins) (hc : r.checked = true) :
    ins.op = .iinc ∧ r = ⟨ins.dstReg, .typed .int, true⟩ := by
  have hwindow : ∀ {needs : List Need}, r ∉ windowReads ins needs := fun hmem => by
    rw [windowReads_unchecked hmem] at hc
    cases hc
  unfold extraReads at hr
  split at hr
  case h_1 hop => exact ⟨hop, mem_singleton.mp hr⟩
  -- a single stored value, a window, a window behind a receiver, or nothing
  all_goals
    first
    | (cases mem_singleton.mp hr; cases hc)
    | exact absurd hr hwindow
    | exact absurd (mem_of_mem_tail hr) hwindow
    | (rcases mem_cons.mp hr with rfl | hr
       · cases hc
       · exact absurd hr hwindow)
    | cases hr

/-- Every compared read, as the verifier leaves it. -/
theorem checked_read (hwf : WellFormed m ins) {pc : Nat} (hcheck : checkIns ret pc ins S = [])
    (hr : r ∈ reads m ins) (hc : r.checked = true) :
    ∃ d, r.need = .typed d ∧ RType.isAssignable (S.reg r.reg) d = true ∧ d ≠ .bottom ∧
      d ≠ .null := by
  rcases mem_append.mp hr with hr | hr
  · exact checked_operand hwf hcheck hr
  obtain ⟨hop, rfl⟩ := extraReads_checked hr hc
  unfold checkIns at hcheck
  rw [if_neg (by rw [hwf.operands]; decide)] at hcheck
  have hdst := (append_eq_nil_iff.mp hcheck).2
  rw [if_pos hop] at hdst
  refine ⟨.int, rfl, ?_, by decide, by decide⟩
  by_contra hass
  rw [if_neg hass] at hdst
  cases hdst

/-- In agreement with the analysis, and with the unchecked reads in order, all
reads of an instruction are in order. -/
theorem readOk_of_agree (hagree : Agree S P) (hwf : WellFormed m ins) {pc : Nat}
    (hcheck : checkIns ret pc ins S = []) (hun : ∀ r ∈ reads m ins, Unchecked P r → ReadOk P r) :
    ∀ r ∈ reads m ins, ReadOk P r := by
  intro r hr
  by_cases hunchecked : Unchecked P r
  · exact hun r hr hunchecked
  · simp only [Unchecked, not_or, Bool.not_eq_false] at hunchecked
    obtain ⟨d, hneed, hass, hd, hnull⟩ := checked_read hwf hcheck hr hunchecked.1
    unfold ReadOk
    rw [hneed]
    exact (hagree.regs r.reg hunchecked.2).met hass hd hnull

theorem checked_local (hwf : WellFormed m ins) {pc : Nat} (hcheck : checkIns ret pc ins S = [])
    (hsig : (info ins.op).sig = .regSlot) :
    RType.isAssignable (S.loc ins.immIdx) (info ins.op).result = true := by
  obtain ⟨hres, _, _, _, _, hiinc⟩ := result_of_regSlot ins.op hsig
  unfold checkIns at hcheck
  rw [if_neg (by rw [hwf.operands]; decide)] at hcheck
  have hslot := (append_eq_nil_iff.mp hcheck).2
  rw [if_neg hiinc, if_pos hsig] at hslot
  by_contra hass
  rw [if_pos ⟨hwf.slot (Or.inl hsig), hres, Bool.eq_false_iff.mpr hass⟩] at hslot
  cases hslot

theorem localReadOk_of_agree (hagree : Agree S P) (hwf : WellFormed m ins) {pc : Nat}
    (hcheck : checkIns ret pc ins S = []) : LocalReadOk ins P := by
  intro hsig
  obtain ⟨hres, hnull, _⟩ := result_of_regSlot ins.op hsig
  exact (hagree.locals ins.immIdx).met (checked_local hwf hcheck hsig) hres hnull

theorem sourceRead_mem (ha : (regUse (info ins.op).sig).a = true)
    (hop : (info ins.op).operandA ≠ .bottom) :
    (⟨ins.aReg, .typed (info ins.op).operandA, true⟩ : Read) ∈ tableReads ins := by
  apply mem_append_left
  rw [if_pos ⟨ha, hop⟩]
  exact mem_singleton_self _

theorem stepIns_of_resultType (hwf : WellFormed m ins) {d : RType}
    (hload : (info ins.op).sig ≠ .regSlot) (hres : resultType m ins = some d) :
    stepIns ins S = S.setReg ins.dstReg d := by
  have hstore : (info ins.op).sig ≠ .slotReg := by
    intro hsig
    obtain ⟨hbot, _, hf, hs, hi, _⟩ := slotReg_writes_nothing ins.op hsig
    rw [resultType_of_table hf hs hi, if_neg (by rw [hbot]; decide)] at hres
    cases hres
  unfold stepIns
  rw [if_neg (by rw [hwf.operands]; decide)]
  by_cases hiinc : ins.op = .iinc
  · have hd : resultType m ins = some .int := by
      rw [resultType_of_table (by rw [hiinc]; decide) (by rw [hiinc]; decide)
        (by rw [hiinc]; decide), hiinc]
      decide
    rw [hd] at hres
    cases hres
    rw [if_pos hiinc]
  · rw [if_neg hiinc, if_neg hload, if_neg hstore, hres]

theorem stepIns_of_no_result (hwf : WellFormed m ins) (hstore : (info ins.op).sig ≠ .slotReg)
    (hres : resultType m ins = none) : stepIns ins S = S := by
  have hload : (info ins.op).sig ≠ .regSlot := by
    intro hsig
    obtain ⟨hne, _, hf, hs, hi, _⟩ := result_of_regSlot ins.op hsig
    rw [resultType_of_table hf hs hi, if_pos hne] at hres
    cases hres
  have hiinc : ins.op ≠ .iinc := by
    intro hop
    rw [resultType_of_table (by rw [hop]; decide) (by rw [hop]; decide) (by rw [hop]; decide),
      hop] at hres
    cases hres
  unfold stepIns
  rw [if_neg (by rw [hwf.operands]; decide), if_neg hiinc, if_neg hload, if_neg hstore, hres]

/-- **One instruction.**  Executing an instruction along a path keeps the slots in
agreement with the abstract step. -/
theorem agree_step (hagree : Agree S P) (hwf : WellFormed m ins) {pc : Nat}
    (hcheck : checkIns ret pc ins S = []) (hun : ∀ r ∈ reads m ins, Unchecked P r → ReadOk P r)
    (hw : Writes m ins P P') : Agree (stepIns ins S) P' := by
  have hreads := readOk_of_agree hagree hwf hcheck hun
  cases hw with
  | load hsig =>
    obtain ⟨hres, _, hf, hs, hi, hiinc⟩ := result_of_regSlot ins.op hsig
    have hstep : stepIns ins S = S.setReg ins.dstReg (info ins.op).result := by
      unfold stepIns
      rw [if_neg (by rw [hwf.operands]; decide), if_neg hiinc, if_pos hsig,
        if_pos (hwf.slot (Or.inl hsig))]
    rw [hstep]
    have hmet := localReadOk_of_agree hagree hwf hcheck hsig
    exact hagree.setReg (hwf.dst_lt (writer_uses_dst ins.op (Or.inl hres)))
      (fun _ => RType.fits_of_isAssignable (RType.isAssignable_of_met hmet))
  | store hsig =>
    obtain ⟨_, hopA, _, _, _, hiinc⟩ := slotReg_writes_nothing ins.op hsig
    have hload : (info ins.op).sig ≠ .regSlot := by rw [hsig]; decide
    have hslot := hwf.slot (Or.inr hsig)
    have hstep : stepIns ins S = S.setLoc ins.immIdx (S.reg ins.aReg) := by
      unfold stepIns
      rw [if_neg (by rw [hwf.operands]; decide), if_neg hiinc, if_neg hload, if_pos hsig,
        if_pos hslot]
    rw [hstep]
    -- the stored register is compared by the verifier and read in order
    have huse : (regUse (info ins.op).sig).a = true := by rw [hsig]; rfl
    have hsrc := sourceRead_mem huse hopA
    obtain ⟨d, hneed, hass, _, _⟩ := checked_operand hwf hcheck hsrc
    cases hneed
    have hmet := hreads _ (mem_append_left _ hsrc)
    exact hagree.setLoc hslot (RType.fits_of_both (RType.isAssignable_of_met hmet) hass)
  | move hop =>
    obtain ⟨hsig, hresA, hres, hf, hs, hi, _⟩ := move_row ins.op hop
    have htype : resultType m ins = some (info ins.op).result := by
      rw [resultType_of_table hf hs hi, if_pos hres]
    rw [stepIns_of_resultType hwf (by rw [hsig]; decide) htype]
    have huse : (regUse (info ins.op).sig).a = true := by rw [hsig]; rfl
    have hsrc := sourceRead_mem huse (hresA ▸ hres)
    have hmet := hreads _ (mem_append_left _ hsrc)
    refine hagree.setReg (hwf.dst_lt (dst_of_resultType htype)) (fun _ => ?_)
    rw [hresA]
    exact RType.fits_of_isAssignable (RType.isAssignable_of_met hmet)
  | result hsig hop hres hkept ht =>
    rw [stepIns_of_resultType hwf hsig hres]
    exact hagree.setReg (hwf.dst_lt (dst_of_resultType hres)) (fun _ => RType.fits_of_holds ht)
  | dropped hres hdrop =>
    have hload : (info ins.op).sig ≠ .regSlot := by
      intro hsig
      obtain ⟨_, _, _, _, hi, _⟩ := result_of_regSlot ins.op hsig
      simp [dropsResult, hi] at hdrop
    rw [stepIns_of_resultType hwf hload hres]
    exact hagree.setReg (hwf.dst_lt (dst_of_resultType hres)) (fun hc => by cases hc)
  | quick hop ht =>
    obtain ⟨hbot, _, hstore, hf, hs, hi, _⟩ := quick_row ins.op hop
    have hnone : resultType m ins = none := by
      rw [resultType_of_table hf hs hi, if_neg (by rw [hbot]; decide)]
    rw [stepIns_of_no_result hwf hstore hnone]
    exact hagree.setReg_untracked _ _
  | none hsig hop hres =>
    rw [stepIns_of_no_result hwf hsig hres]
    exact hagree

end Step

end B2Compiler.Rbc
