import B2Compiler.Passes.BuilderTypes
import B2Compiler.Rbc.VerifierSound

/-!
# Transfer steps of the builder and of the verifier

The builder's slot types fit the verifier's when every slot the verifier has a type for
has that type with the builder, where null and another reference count as one: the
verifier types a local by what is stored, the builder by the opcode of the store.  A step
over an instruction the verifier has no complaint about keeps this, as long as the result
of an invoke is read alike on both sides.
-/

namespace B2Compiler.Passes.Builder

open Lib List
open Rbc hiding isBranchSig canFallThrough isTerminator isLeader blockOf
  switchTargets cpAt blockPcs resultType
open RType (Fits)

/-! ## Slots -/

namespace SlotTypes

variable {m : Method}

theorem get_set (S : SlotTypes m) {s : Nat} (hs : s < nSlots m) (t : RType) (q : Nat) :
    (S.set s t).get q = if q = s then t else S.get q := by
  have hLen : s < S.types.length := by
    rw [S.size]
    exact hs
  unfold set get
  by_cases hq : q = s
  · subst hq
    rw [if_pos rfl]
    simp [getD_eq_getElem?_getD, hLen]
  · rw [if_neg hq]
    simp [getD_eq_getElem?_getD, getElem?_set_ne (Ne.symm hq)]

theorem get_ofFn {f : Nat → RType} {s : Nat} (hs : s < nSlots m) : (ofFn m f).get s = f s := by
  unfold ofFn get
  simp [getD_eq_getElem?_getD, hs]

theorem get_inf (S T : SlotTypes m) (s : Nat) : (S ⊓ T).get s = RType.join (S.get s) (T.get s) :=
  FlowState.getD_zipWith_join S.types T.types (by rw [S.size, T.size]) s

/-- Writing a slot with its own type changes nothing. -/
theorem set_get_self (S : SlotTypes m) {s : Nat} (hs : s < nSlots m) : S.set s (S.get s) = S := by
  have hLen : s < S.types.length := by
    rw [S.size]
    exact hs
  apply SlotTypes.ext
  show S.types.set s (S.types.getD s .bottom) = S.types
  rw [getD_eq_getElem?_getD, getElem?_eq_getElem hLen]
  exact set_getElem_self hLen

end SlotTypes

@[simp] theorem localIdx_eq (i : Nat) : localIdx i = i := rfl

theorem regIdx_lt {m : Method} {r : Nat} (hr : r < m.numRegs) : regIdx m r < nSlots m := by
  unfold regIdx nSlots
  omega

theorem localIdx_lt {m : Method} {i : Nat} (hi : i < m.numLocals) : localIdx i < nSlots m := by
  unfold localIdx nSlots
  omega

theorem getD_entryLocals {m : Method} (params : List RType) {i : Nat} (hi : i < m.numLocals) :
    (entryLocals m params).getD i .bottom =
      if i < (if m.isStatic then 0 else 1) then .ref
      else params.getD (i - if m.isStatic then 0 else 1) .bottom := by
  have hPad : ∀ j, (params ++ replicate m.numLocals RType.bottom)[j]?.getD .bottom =
      params.getD j .bottom := by
    intro j
    rw [getElem?_append, getD_eq_getElem?_getD]
    by_cases hj : j < params.length
    · rw [if_pos hj]
    · rw [if_neg hj, getElem?_eq_none (Nat.le_of_not_lt hj), getElem?_replicate]
      split <;> rfl
  unfold entryLocals
  rw [getD_eq_getElem?_getD, getElem?_take, if_pos hi, append_assoc]
  cases hStatic : m.isStatic with
  | true =>
    rw [if_pos rfl, if_pos rfl, if_neg (Nat.not_lt_zero i), nil_append, Nat.sub_zero]
    exact hPad i
  | false =>
    rw [if_neg Bool.false_ne_true, if_neg Bool.false_ne_true]
    cases i with
    | zero => rfl
    | succ i =>
      rw [if_neg (by omega), Nat.add_sub_cancel, singleton_append, getElem?_cons_succ]
      exact hPad i

/-! ## Types that fit -/

/-- The builder's slots fit the verifier's. -/
structure FitsSlots {m : Method} (S : SlotTypes m) (V : FlowState m) : Prop where
  regs : ∀ r, r < m.numRegs → Fits (S.get (regIdx m r)) (V.reg r)
  locals : ∀ i, i < m.numLocals → Fits (S.get (localIdx i)) (V.loc i)

theorem Fits.join {a b v : RType} (ha : Fits a v) (hb : Fits b v) : Fits (RType.join a b) v := by
  revert ha hb
  unfold Fits
  cases a <;> cases b <;> cases v <;> decide

theorem Fits.assign {t v d : RType} (h : Fits t v) (hAssign : RType.isAssignable v d = true)
    (hd : d ≠ .bottom) : Fits t d := by
  revert h hAssign hd
  unfold Fits
  cases t <;> cases v <;> cases d <;> decide

theorem fits_operand {v d : RType} (hAssign : RType.isAssignable v d = true) : Fits d v := by
  revert hAssign
  unfold Fits
  cases v <;> cases d <;> decide

namespace FitsSlots

variable {m : Method} {S T : SlotTypes m} {V W : FlowState m}

theorem inf (hS : FitsSlots S V) (hT : FitsSlots T V) : FitsSlots (S ⊓ T) V := by
  constructor
  · intro r hr
    rw [SlotTypes.get_inf]
    exact Fits.join (hS.regs r hr) (hT.regs r hr)
  · intro i hi
    rw [SlotTypes.get_inf]
    exact Fits.join (hS.locals i hi) (hT.locals i hi)

theorem mono (h : FitsSlots S V) (hle : W ≤ V) : FitsSlots S W where
  regs r hr := (h.regs r hr).mono (FlowState.reg_mono hle r)
  locals i hi := (h.locals i hi).mono (FlowState.loc_mono hle i)

theorem setReg (h : FitsSlots S V) {d : Nat} {t v : RType} (hd : d < m.numRegs)
    (hFits : Fits t v) : FitsSlots (S.set (regIdx m d) t) (V.setReg d v) := by
  constructor
  · intro r hr
    rw [SlotTypes.get_set S (regIdx_lt hd), FlowState.reg_setReg V v hd]
    by_cases hrd : r = d
    · rw [if_pos (congrArg (regIdx m) hrd), if_pos hrd]
      exact hFits
    · rw [if_neg (by unfold regIdx; omega), if_neg hrd]
      exact h.regs r hr
  · intro i hi
    rw [SlotTypes.get_set S (regIdx_lt hd), if_neg (by unfold localIdx regIdx; omega)]
    exact h.locals i hi

theorem setLoc (h : FitsSlots S V) {d : Nat} {t v : RType} (hd : d < m.numLocals)
    (hFits : Fits t v) : FitsSlots (S.set (localIdx d) t) (V.setLoc d v) := by
  constructor
  · intro r hr
    rw [SlotTypes.get_set S (localIdx_lt hd), if_neg (by unfold localIdx regIdx; omega)]
    exact h.regs r hr
  intro i hi
  rw [SlotTypes.get_set S (localIdx_lt hd), FlowState.loc_setLoc V v hd]
  by_cases hid : i = d
  · rw [if_pos (congrArg localIdx hid), if_pos hid]
    exact hFits
  · rw [if_neg (by simpa using hid), if_neg hid]
    exact h.locals i hi

theorem setDst (h : FitsSlots S V) (d : Nat) {t : RType} (ht : t ≠ .bottom) :
    FitsSlots (S.setDst d t) (V.setReg d t) := by
  unfold SlotTypes.setDst
  by_cases hd : d < m.numRegs
  · rw [if_pos ⟨ht, hd⟩]
    exact h.setReg hd (Fits.refl t)
  · have hSame : V.setReg d t = V := FlowState.ext
      (set_eq_of_length_le (by rw [V.regs_size]; omega)) rfl
    rw [if_neg (fun hBoth => hd hBoth.2), hSame]
    exact h

theorem handlerEntry (h : FitsSlots S V) : FitsSlots (handlerTypes S) V.handlerEntry := by
  constructor
  · intro r hr
    rcases FlowState.reg_handlerEntry V r with hBot | ⟨rfl, hRef⟩
    · rw [hBot]
      exact Fits.bottom _
    · unfold handlerTypes
      rw [hRef, SlotTypes.get_ofFn (regIdx_lt hr), if_neg (by unfold regIdx; omega), if_pos rfl]
      exact Fits.refl _
  · intro i hi
    unfold handlerTypes
    rw [SlotTypes.get_ofFn (localIdx_lt hi), localIdx_eq, if_pos hi]
    exact h.locals i hi

theorem entry {params : List RType} (hParams : parseParams m.descriptor = some params) :
    FitsSlots (entryTypes m) (entryState m params) := by
  constructor
  · intro r _
    rw [entryState_reg]
    exact Fits.bottom _
  · intro i hi
    have hSame : (entryTypes m).get (localIdx i) = (entryState m params).loc i := by
      show _ = (entryLocals m params).getD i .bottom
      unfold entryTypes
      dsimp only
      rw [SlotTypes.get_ofFn (localIdx_lt hi), hParams, getD_entryLocals params hi, localIdx_eq,
        if_pos hi, Option.getD_some]
    rw [hSame]
    exact Fits.refl _

end FitsSlots

/-! ## What an instruction writes -/

/-- Reads `parseReturn` the descriptor of an invoke as the verifier's scan does?  For a void
or a plain descriptor it does (`parse_eq_scan_iff`). -/
def readsResult (m : Method) (ins : Ins) : Bool :=
  !isInvoke ins.op ||
    match Rbc.cpAt m ins with
    | none => true
    | some c =>
      match scanMethodDesc (invokeDesc ins.op c) with
      | none => true
      | some rs => parseReturn (invokeDesc ins.op c) = rs.type

section Writes

variable {m : Method} {ins : Ins}

/-- An accepted instruction with a pool index finds an entry of a kind it can use. -/
theorem cpAt_of_structure {pc : Nat} (h : structureMsgs m pc ins = [])
    (hSig : sigUsesCpIndex (info ins.op).sig = true) :
    ∃ c, m.cp[ins.immIdx]? = some c ∧ cpKindOk ins.op c.kind = true := by
  unfold structureMsgs at h
  obtain ⟨h, -⟩ := append_eq_nil_iff.mp h
  obtain ⟨h, -⟩ := append_eq_nil_iff.mp h
  obtain ⟨-, hCp⟩ := append_eq_nil_iff.mp h
  rw [if_pos (Or.inl hSig)] at hCp
  cases hGet : m.cp[ins.immIdx]? with
  | none =>
    rw [hGet] at hCp
    cases hCp
  | some c =>
    rw [hGet] at hCp
    dsimp only at hCp
    by_cases hKind : cpKindOk ins.op c.kind = true
    · exact ⟨c, rfl, hKind⟩
    · rw [if_neg hKind] at hCp
      cases hCp

/-- The builder writes the register the verifier writes, with the same type. -/
def WritesAlike (ins : Ins) (S : SlotTypes m) : Prop :=
  match Rbc.resultType m ins with
  | some t => t ≠ .bottom ∧ step ins S = S.setDst ins.dstReg t
  | none => step ins S = S

theorem setDst_bottom (S : SlotTypes m) (d : Nat) : S.setDst d .bottom = S := by
  unfold SlotTypes.setDst
  rw [if_neg (fun hBoth => hBoth.1 rfl)]

theorem writesAlike_field {pc : Nat} (hStruct : structureMsgs m pc ins = [])
    (hDesc : descriptorMsgs m pc ins = []) (hField : ins.op = .getfield ∨ ins.op = .getstatic)
    (S : SlotTypes m) : WritesAlike ins S := by
  have hSig : sigUsesCpIndex (info ins.op).sig = true := by
    rcases hField with h | h <;> rw [h] <;> rfl
  obtain ⟨c, hGet, hKind⟩ := cpAt_of_structure hStruct hSig
  have hRef : c.kind = .fieldRef := by
    rcases hField with h | h <;> rw [h] at hKind <;> simpa [cpKindOk] using hKind
  have hAt : Rbc.cpAt m ins = some c := by
    unfold Rbc.cpAt
    rw [hGet]
    exact if_pos hKind
  unfold descriptorMsgs at hDesc
  rw [hAt] at hDesc
  dsimp only at hDesc
  rw [if_pos hField] at hDesc
  obtain ⟨t, hScan⟩ : ∃ t, scanField c.str3.toList = some (t, []) := by
    split at hDesc
    · rename_i t hScan
      exact ⟨t, hScan⟩
    · cases hDesc
  have hType : fieldDescType c.str3.toList = t := fieldDescType_eq hScan
  have hNe : t ≠ .bottom := by
    obtain ⟨p, -, hText⟩ := scanField_eq_some hScan
    exact hText.ne_bottom
  have hResult : Rbc.resultType m ins = some t := by
    unfold Rbc.resultType
    rw [if_pos hField, hAt]
    show some (fieldResult c) = some t
    unfold fieldResult
    rw [hScan]
  have hBuilder : resultOf m ins S = .ok t := by
    have hOther : ins.op ≠ .getfieldQuick ∧ ins.op ≠ .ldc := by
      rcases hField with h | h <;> rw [h] <;> decide
    unfold resultOf
    dsimp only
    rw [if_neg hOther.1, if_neg hOther.2, if_pos hField]
    unfold Builder.cpAt
    rw [hGet]
    dsimp only
    rw [if_neg (not_not_intro hRef), ← hType]
    rfl
  unfold WritesAlike
  rw [hResult]
  refine ⟨hNe, ?_⟩
  unfold step
  rcases hField with h | h <;> simp only [h, info, hBuilder]

theorem writesAlike_invoke {pc : Nat} (hStruct : structureMsgs m pc ins = [])
    (hDesc : descriptorMsgs m pc ins = []) (hInvoke : isInvoke ins.op = true)
    (hScope : scopeMsgs ins.op = []) (hRead : readsResult m ins = true) (S : SlotTypes m) :
    WritesAlike ins S := by
  have hKinds : (info ins.op).sig = .call ∧ ins.op ≠ .getfield ∧ ins.op ≠ .getstatic ∧
      ins.op ≠ .invokedynamic ∧ ∀ k, cpKindOk ins.op k = true →
        k = .methodRef ∨ k = .interfaceMethodRef := by
    revert hInvoke hScope
    cases ins.op <;> simp [isInvoke, scopeMsgs, cpKindOk, info]
  obtain ⟨hSig, hGetfield, hGetstatic, hDynamic, hKinds⟩ := hKinds
  obtain ⟨c, hGet, hKind⟩ := cpAt_of_structure hStruct (by rw [hSig]; rfl)
  have hAt : Rbc.cpAt m ins = some c := by
    unfold Rbc.cpAt
    rw [hGet]
    exact if_pos hKind
  have hText : invokeDesc ins.op c = c.str3 := if_neg hDynamic
  have hNoField : ¬(ins.op = .getfield ∨ ins.op = .getstatic) := by
    rintro (h | h)
    · exact hGetfield h
    · exact hGetstatic h
  obtain ⟨rs, hScan⟩ : ∃ rs, scanMethodDesc c.str3 = some rs := by
    unfold descriptorMsgs at hDesc
    rw [hAt] at hDesc
    dsimp only at hDesc
    rw [if_neg hNoField, hText] at hDesc
    cases hScan : scanMethodDesc c.str3 with
    | some rs => exact ⟨rs, rfl⟩
    | none =>
      rw [if_pos ⟨hInvoke, hScan⟩, if_neg hDynamic] at hDesc
      cases hDesc
  have hReturn : parseReturn c.str3 = rs.type := by
    unfold readsResult at hRead
    rw [hInvoke, hAt] at hRead
    dsimp only at hRead
    rw [hText, hScan] at hRead
    simpa using hRead
  have hResult : Rbc.resultType m ins = if rs.isVoid then none else some rs.type := by
    unfold Rbc.resultType
    rw [if_neg hNoField, if_pos hInvoke, hAt]
    show invokeResult ins.op c = _
    unfold invokeResult
    rw [hText, hScan]
  have hStep : step ins S = S.setDst ins.dstReg rs.type := by
    unfold step callResult
    simp only [hSig, hGet]
    rw [if_pos (hKinds c.kind hKind), hReturn]
  obtain ⟨⟨ts, ret⟩, hParams⟩ : ∃ p, scanParamTypes c.str3 = some p := by
    cases hParams : scanParamTypes c.str3 with
    | some p => exact ⟨p, rfl⟩
    | none =>
      unfold scanMethodDesc at hScan
      rw [hParams] at hScan
      cases hScan
  unfold WritesAlike
  rw [hResult, hStep]
  rcases ret_of_scanMethodDesc hParams hScan with ⟨-, rfl⟩ | ⟨t, hType, rfl⟩
  · exact setDst_bottom S ins.dstReg
  · exact ⟨hType.ne_bottom, rfl⟩

/-- The signatures the analysis passes over. -/
def passedOver : Sig → Bool
  | .none | .regRegRegCp | .branch | .regBranch | .regRegBranch | .regCpBranch | .callQuick
  | .guard | .guardCp | .trap => true
  | _ => false

/-- Every other instruction that is neither a load nor a store of a local: the type in the
table. -/
theorem writesAlike_table (hScope : scopeMsgs ins.op = [])
    (hLoad : (info ins.op).sig ≠ .regSlot) (hStore : (info ins.op).sig ≠ .slotReg)
    (hField : ¬(ins.op = .getfield ∨ ins.op = .getstatic)) (hInvoke : isInvoke ins.op = false)
    (S : SlotTypes m) : WritesAlike ins S := by
  have hResult : Rbc.resultType m ins =
      if (info ins.op).result ≠ .bottom then some (info ins.op).result else none := by
    unfold Rbc.resultType
    rw [if_neg hField, if_neg (by rw [hInvoke]; decide)]
  have hStep : step ins S = S.setDst ins.dstReg (info ins.op).result := by
    by_cases hQuick : ins.op = .getfieldQuick
    · have hOwn : step ins S = S.setDst ins.dstReg
          (if ins.dstReg < m.numRegs then S.get (regIdx m ins.dstReg) else .bottom) := by
        unfold step resultOf
        simp only [hQuick, info, if_true]
      have hNone : (info ins.op).result = .bottom := by rw [hQuick]; rfl
      rw [hOwn, hNone, setDst_bottom]
      by_cases hDst : ins.dstReg < m.numRegs
      · rw [if_pos hDst]
        unfold SlotTypes.setDst
        split
        · exact SlotTypes.set_get_self S (regIdx_lt hDst)
        · rfl
      · rw [if_neg hDst, setDst_bottom]
    · by_cases hLdc : ins.op = .ldc
      · have hOk : resultOf m ins S = .ok .ref := by
          unfold resultOf
          dsimp only
          rw [if_neg hQuick, if_pos hLdc, hLdc]
          split
          · exact congrArg Except.ok (ite_self _)
          · rfl
        unfold step
        simp only [hLdc, info, hOk]
      · have hOk : resultOf m ins S = .ok (info ins.op).result := by
          unfold resultOf
          dsimp only
          rw [if_neg hQuick, if_neg hLdc, if_neg hField]
        unfold step
        dsimp only
        rw [hOk]
        dsimp only
        have hQuiet : passedOver (info ins.op).sig = true → (info ins.op).result = .bottom := by
          revert hScope hInvoke
          cases ins.op <;> simp [scopeMsgs, isInvoke, info, passedOver]
        have hCall : (info ins.op).sig ≠ .call := by
          revert hScope hInvoke
          cases ins.op <;> simp [scopeMsgs, isInvoke, info]
        cases hSig : (info ins.op).sig with
        | regSlot => exact absurd hSig hLoad
        | slotReg => exact absurd hSig hStore
        | call => exact absurd hSig hCall
        | reg | regImm | regCp | regReg | regRegImm | regRegCp | regRegReg => rfl
        | none | regRegRegCp | branch | regBranch | regRegBranch | regCpBranch | callQuick
        | guard | guardCp | trap => rw [hQuiet (by rw [hSig]; rfl), setDst_bottom]
  unfold WritesAlike
  rw [hResult, hStep]
  by_cases hBot : (info ins.op).result = .bottom
  · rw [if_neg (not_not_intro hBot), hBot]
    exact setDst_bottom S ins.dstReg
  · rw [if_pos hBot]
    exact ⟨hBot, rfl⟩

/-! ## One step -/

/-- The tables of the loads and the stores of locals. -/
theorem store_operand (op : Op) (h : (info op).sig = .slotReg) :
    (info op).operandA ≠ .bottom ∧ op ≠ .iinc := by
  revert h
  cases op <;> simp [info]

theorem iinc_sig (op : Op) (h : op = .iinc) :
    (info op).sig ≠ .regSlot ∧ (info op).sig ≠ .slotReg ∧ isInvoke op = false ∧
      (info op).result = .int ∧ ¬(op = .getfield ∨ op = .getstatic) := by
  rw [h]
  decide

section Step

variable {S : SlotTypes m} {V : FlowState m} {ret : RetScan} {pc : Nat}

/-- A load: the local's type against the type of the opcode. -/
theorem FitsSlots.step_load (h : FitsSlots S V) (hWell : WellFormed m ins)
    (hCheck : checkIns ret pc ins V = []) (hLoad : (info ins.op).sig = .regSlot) :
    FitsSlots (Builder.step ins S) (stepIns ins V) := by
  have hLocal := hWell.slot (Or.inl hLoad)
  have hDst : ins.dstReg < m.numRegs := hWell.dst_lt (by rw [hLoad]; rfl)
  obtain ⟨hResult, -, -, -, -, hIinc⟩ := result_of_regSlot ins.op hLoad
  have hVerifier : stepIns ins V = V.setReg ins.dstReg (info ins.op).result := by
    unfold stepIns
    dsimp only
    rw [if_neg (by rw [hWell.operands]; decide), if_neg hIinc, if_pos hLoad, if_pos hLocal]
  have hBuilder : Builder.step ins S =
      S.set (regIdx m ins.dstReg) (S.get (localIdx ins.immIdx)) := by
    unfold Builder.step
    simp only [hLoad]
    rw [if_pos ⟨hDst, hLocal⟩]
  rw [hVerifier, hBuilder]
  exact h.setReg hDst (Fits.assign (h.locals _ hLocal) (checked_local hWell hCheck hLoad) hResult)

/-- A store: the type of the opcode against what is stored. -/
theorem FitsSlots.step_store (h : FitsSlots S V) (hWell : WellFormed m ins)
    (hCheck : checkIns ret pc ins V = []) (hStore : (info ins.op).sig = .slotReg) :
    FitsSlots (Builder.step ins S) (stepIns ins V) := by
  have hLocal := hWell.slot (Or.inr hStore)
  have hLoad : (info ins.op).sig ≠ .regSlot := by
    rw [hStore]
    decide
  obtain ⟨hOperand, hIinc⟩ := store_operand ins.op hStore
  have hVerifier : stepIns ins V = V.setLoc ins.immIdx (V.reg ins.aReg) := by
    unfold stepIns
    dsimp only
    rw [if_neg (by rw [hWell.operands]; decide), if_neg hIinc, if_neg hLoad, if_pos hStore,
      if_pos hLocal]
  have hBuilder : Builder.step ins S = S.set (localIdx ins.immIdx) (info ins.op).operandA := by
    unfold Builder.step
    simp only [hStore]
    rw [if_pos ⟨hLocal, hOperand⟩]
  have hMem : (⟨ins.aReg, .typed (info ins.op).operandA, true⟩ : Read) ∈ tableReads ins := by
    unfold tableReads
    dsimp only
    rw [if_pos ⟨by rw [hStore]; rfl, hOperand⟩]
    exact mem_append_left _ (mem_singleton_self _)
  obtain ⟨d, hNeed, hAssign, -⟩ := checked_operand hWell hCheck hMem
  cases hNeed
  rw [hVerifier, hBuilder]
  exact h.setLoc hLocal (fits_operand hAssign)

theorem stepIns_other (V : FlowState m) (hWell : WellFormed m ins)
    (hLoad : (info ins.op).sig ≠ .regSlot) (hStore : (info ins.op).sig ≠ .slotReg) :
    stepIns ins V =
      match Rbc.resultType m ins with
      | some t => V.setReg ins.dstReg t
      | none => V := by
  unfold stepIns
  dsimp only
  rw [if_neg (by rw [hWell.operands]; decide)]
  by_cases hIinc : ins.op = .iinc
  · obtain ⟨-, -, hInvoke, hResult, hField⟩ := iinc_sig ins.op hIinc
    have hInt : Rbc.resultType m ins = some .int := by
      unfold Rbc.resultType
      rw [if_neg hField, if_neg (by rw [hInvoke]; decide)]
      exact (if_pos (by rw [hResult]; decide)).trans (congrArg some hResult)
    rw [if_pos hIinc, hInt]
  · rw [if_neg hIinc, if_neg hLoad]
    exact if_neg hStore

/-- An instruction without complaints has no malformed descriptor. -/
theorem descriptorMsgs_of_check (hWell : WellFormed m ins) (hCheck : checkIns ret pc ins V = [])
    (hLoad : (info ins.op).sig ≠ .regSlot) (hStore : (info ins.op).sig ≠ .slotReg)
    (hIinc : ins.op ≠ .iinc) : descriptorMsgs m pc ins = [] := by
  unfold checkIns at hCheck
  rw [if_neg (by rw [hWell.operands]; decide)] at hCheck
  have hRest := (append_eq_nil_iff.mp hCheck).2
  rw [if_neg hIinc, if_neg hLoad, if_neg hStore] at hRest
  exact (append_eq_nil_iff.mp hRest).2

/-- **One step.**  Over an instruction the verifier accepts and has no complaint about, the
builder's slots keep fitting the verifier's. -/
theorem FitsSlots.step (h : FitsSlots S V) (hStruct : structureMsgs m pc ins = [])
    (hScope : scopeMsgs ins.op = []) (hCheck : checkIns ret pc ins V = [])
    (hRead : readsResult m ins = true) : FitsSlots (Builder.step ins S) (stepIns ins V) := by
  have hWell : WellFormed m ins := (structure_parts hStruct).1
  by_cases hLoad : (info ins.op).sig = .regSlot
  · exact h.step_load hWell hCheck hLoad
  by_cases hStore : (info ins.op).sig = .slotReg
  · exact h.step_store hWell hCheck hStore
  have hAlike : WritesAlike ins S := by
    by_cases hIinc : ins.op = .iinc
    · obtain ⟨-, -, hInvoke, -, hField⟩ := iinc_sig ins.op hIinc
      exact writesAlike_table hScope hLoad hStore hField hInvoke S
    have hDesc := descriptorMsgs_of_check hWell hCheck hLoad hStore hIinc
    by_cases hField : ins.op = .getfield ∨ ins.op = .getstatic
    · exact writesAlike_field hStruct hDesc hField S
    · cases hInvoke : isInvoke ins.op with
      | true => exact writesAlike_invoke hStruct hDesc hInvoke hScope hRead S
      | false => exact writesAlike_table hScope hLoad hStore hField hInvoke S
  rw [stepIns_other V hWell hLoad hStore]
  unfold WritesAlike at hAlike
  cases hResult : Rbc.resultType m ins with
  | some t =>
    rw [hResult] at hAlike
    obtain ⟨hNe, hBuilder⟩ := hAlike
    rw [hBuilder]
    exact h.setDst ins.dstReg hNe
  | none =>
    rw [hResult] at hAlike
    rw [show Builder.step ins S = S from hAlike]
    exact h

end Step

end Writes

end B2Compiler.Passes.Builder
