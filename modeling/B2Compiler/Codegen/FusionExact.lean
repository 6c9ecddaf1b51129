import B2Compiler.Codegen.FusionSound

/-!
# When fusion is exact

A fused body and the instructions it covers part in stale registers only.  Where
such a register is dead at every place the window can continue, nothing reads the
difference; where it is live, an activation with longs in all registers shows it.
-/

namespace B2Compiler.Codegen.Fusion

open Rbc List
open Interp
open Baseline
open Codegen (Gpr kA kB kTagInt typeOfTag)
open Lib.X86 (Flags Cond)
open Lib.Sweep (setAt)

section Exits

variable {m : Method} {fieldWord : Nat → BitVec 32} {pc : Nat} {live : List (Finset Nat)}
  {cand : StencilDesc} {s : SuperName}

/-! ## Where a window continues -/

variable {A F : Activation}

theorem branch_jump {taken : Bool} {t u : Nat} (h : branch taken t A = .jump u F) :
    taken = true ∧ u = t := by
  cases taken with
  | false => cases h
  | true =>
    injection h with ht
    exact ⟨rfl, ht.symm⟩

theorem branch_next {taken : Bool} {t : Nat} (h : branch taken t A = .next F) : taken = false := by
  cases taken with
  | false => rfl
  | true => cases h

theorem afterHelper_cases (r : Activation × BitVec 32) :
    (∃ A, afterHelper r = .next A) ∨ ∃ A, afterHelper r = .deopt A := by
  unfold afterHelper
  dsimp only
  split
  · exact Or.inl ⟨_, rfl⟩
  · exact Or.inr ⟨_, rfl⟩

theorem getfieldIreturn_exit (W : Window) (A : Activation) :
    (∃ F, superEffect W .aloadGetfieldIreturn A = .ret F) ∨
      ∃ F, superEffect W .aloadGetfieldIreturn A = .deopt F := by
  rcases afterHelper_cases (b2cgGetField A (W.localAddr (W.ins 0).immIdx)
    (W.fieldWord (W.ins 1).immIdx) .ret) with ⟨F, h⟩ | ⟨F, h⟩
  · exact Or.inl ⟨F, superEffect_getfieldIreturn h⟩
  · exact Or.inr ⟨F, superEffect_getfieldIreturn h⟩

/-- A length test compares the length with its second operand, or traps. -/
theorem arraylengthIf_exit (W : Window) (A : Activation) :
    (∃ v, superEffect W .aloadArraylengthIf A =
      let A' := { A with trapKind := 0 }.setSlot (W.regAddr (W.ins 1).dstReg)
        (.ofValue (.intVal v))
      branch (cmpHolds .g (A'.payload32 (W.regAddr (W.ins 2).aReg))
        (A'.payload32 (W.regAddr (W.ins 2).bReg))) (W.ins 2).immIdx A') ∨
      ∃ F, superEffect W .aloadArraylengthIf A = .deopt F := by
  rcases arrayLength_spec A.rt (A.slots (W.localAddr (W.ins 0).immIdx)).value
    with ⟨v, hread⟩ | ⟨exc, rt, htrap⟩
  · have h := congrArg afterHelper (hread A (W.localAddr (W.ins 0).immIdx)
      (W.regAddr (W.ins 1).dstReg) rfl rfl)
    exact Or.inl ⟨v, superEffect_arraylengthIf h⟩
  · have h := congrArg afterHelper (htrap A (W.localAddr (W.ins 0).immIdx)
      (W.regAddr (W.ins 1).dstReg) rfl rfl)
    exact Or.inr ⟨_, superEffect_arraylengthIf h⟩

theorem cmpHolds_self (v : BitVec 32) : cmpHolds .g v v = false := by
  simp [cmpHolds, Cond.holds, Alu.eval, Lib.X86.Alu.eval]

/-- A window with stale registers jumps to its branch target only, and only when the
branch can be taken. -/
theorem jump_of_fused (s : SuperName) (hacc : Accepted (superSpec s) m pc live) {t : Nat}
    (h : superEffect (windowAt m fieldWord pc) s A = .jump t F) :
    (t = branchTarget (superSpec s) m pc ∧ CanJump m pc s) ∨ ∀ r, ¬Stale (superSpec s) m pc r := by
  cases s with
  | iloadIload f | iloadIloadIstore f | iloadIincIstore | iloadIstore | iloadIreturn => cases h
  | aloadGetfield =>
    rcases afterHelper_cases (b2cgGetField A _ _ _) with ⟨_, he⟩ | ⟨_, he⟩
    all_goals cases he.symm.trans h
  | aloadGetfieldIreturn =>
    rcases getfieldIreturn_exit (windowAt m fieldWord pc) A with ⟨_, he⟩ | ⟨_, he⟩
    all_goals cases he.symm.trans h
  | iincGoto =>
    right
    intro r hr
    have hskip : skippedDsts (superSpec .iincGoto) m pc = [] := by
      simp [skippedDsts, superSpec, range_succ]
    rw [Stale, hskip] at hr
    cases hr.1
  | iloadIf t' | iloadIconstIfIcmp t' =>
    obtain ⟨htaken, htarget⟩ := branch_jump h
    exact Or.inl ⟨htarget, _, htaken⟩
  | aloadArraylengthIf =>
    have h2 := stepOk hacc { op := .ifIcmpgt, useAsA := some 1 } 2 (by simp [superSpec])
    rcases arraylengthIf_exit (windowAt m fieldWord pc) A with ⟨v, he⟩ | ⟨F', he⟩
    · obtain ⟨htaken, htarget⟩ := branch_jump (he.symm.trans h)
      refine Or.inl ⟨htarget, fun hself => ?_⟩
      have hsame : (codeAt m (pc + 2)).aReg = (codeAt m (pc + 2)).bReg :=
        (link_eq h2.linkA).symm.trans hself.symm
      rw [windowAt_ins, windowAt_ins, hsame, cmpHolds_self] at htaken
      cases htaken
    · cases he.symm.trans h

/-- A window is left at its end only when control can reach the instruction behind it. -/
theorem next_of_fused (s : SuperName) (h : superEffect (windowAt m fieldWord pc) s A = .next F) :
    CanFall m pc s := by
  cases s with
  | iloadIload f | iloadIloadIstore f | iloadIincIstore | iloadIstore | aloadGetfield
  | aloadArraylengthIf => trivial
  | iloadIreturn | iincGoto => cases h
  | aloadGetfieldIreturn =>
    rcases getfieldIreturn_exit (windowAt m fieldWord pc) A with ⟨_, he⟩ | ⟨_, he⟩
    all_goals cases he.symm.trans h
  | iloadIf t | iloadIconstIfIcmp t => exact ⟨_, branch_next h⟩

theorem Same.mono {n : Nat} {L L' : Nat → Prop} {B : Activation} (h : Same n L A B)
    (hsub : ∀ r, L' r → L r) : Same n L' A B :=
  ⟨h.locals, fun r hr => h.regs r (hsub r hr), h.ret, h.trapKind, h.pendingExc, h.rt⟩

theorem RelatedExit.sameExit {stale : Nat → Prop} {f e : Exit Activation} {fall : Nat}
    (h : RelatedExit m.numLocals stale A f e)
    (hnext : ∀ F, f = .next F → ∀ r, stale r → ¬LiveAt m r fall)
    (hjump : ∀ t F, f = .jump t F → ∀ r, stale r → ¬LiveAt m r t) : SameExit m fall f e := by
  cases h with
  | @next F S h => exact .next (h.same.mono fun r hlive hstale => hnext F rfl r hstale hlive)
  | @jump t F S h => exact .jump (h.same.mono fun r hlive hstale => hjump t F rfl r hstale hlive)
  | ret h => exact .ret h
  | deopt h => exact .deopt h

/-- Agreement of the fused body, on activations. -/
theorem fusedAgrees_iff_effects (hacc : Accepted (superSpec s) m pc live) :
    FusedAgrees m fieldWord (superSpec s) pc ↔
      ∀ A, ∃ e, effects (windowAt m fieldWord pc) 0 (superSpec s).pattern.length A = some e ∧
        SameExit m (pc + (superSpec s).pattern.length)
          (superEffect (windowAt m fieldWord pc) s A) e := by
  have hname : (superSpec s).name = s := by cases s <;> rfl
  constructor
  · intro h A
    let c : Cpu := ⟨fun _ => 0, A.slots .ret, ⟨false, false, false, false⟩, fun _ => .word 0, A⟩
    obtain ⟨e, hrun, hsame⟩ := h.exits c
    refine ⟨e.map Cpu.act, ?_, ?_⟩
    · have hact := runSteps_effects (windowAt m fieldWord pc) 0 (superSpec s).pattern.length c
      rw [hrun] at hact
      exact hact.symm
    · rw [run_emitSuperBody, hname] at hsame
      exact hsame
  · intro h
    refine ⟨fun c => ?_, handlers_of_accepted hacc⟩
    obtain ⟨e, heff, hsame⟩ := h c.act
    have hact := runSteps_effects (windowAt m fieldWord pc) 0 (superSpec s).pattern.length c
    rw [heff, Option.map_eq_some_iff] at hact
    obtain ⟨e', hrun, hmap⟩ := hact
    refine ⟨e', hrun, ?_⟩
    rw [run_emitSuperBody, hname, hmap]
    exact hsame

/-- A stale register is one the guard has found dead behind the window, so it is live
there only through a gap of the analysis. -/
theorem missed_of_stale (hst : Structured m) {r : Nat}
    (hfix : ∀ p, p < m.code.length → liveTransfer m p (setAt live) = setAt live p)
    (hacc : Accepted cand m pc live) (hstale : Stale cand m pc r)
    (hlive : LiveAt m r (pc + cand.pattern.length)) :
    MissedAt m r (pc + cand.pattern.length) := by
  obtain ⟨k, hk, rfl⟩ := mem_map.mp hstale.1
  rw [mem_filter, mem_range] at hk
  rcases live_found hst hfix (codeAt m (pc + k)).dst.isLt hlive with hmem | hmissed
  · exact absurd hmem (hacc.dead k hk.1 hk.2)
  · exact hmissed

/-! ## Live stale registers -/

def probe (n : Nat) (content : Slot) (rt : Runtime) : Activation where
  slots
    | .slot i => if i < n then content else ⟨tagOf .long, 0, 0⟩
    | .ret => ⟨tagOf .long, 0, 0⟩
  trapKind := 0
  pendingExc := 0
  rt := rt

theorem probe_local {n i : Nat} (content : Slot) (rt : Runtime) (h : i < n) :
    (probe n content rt).slots (.slot i) = content := if_pos h

theorem probe_reg (n r : Nat) (content : Slot) (rt : Runtime) :
    (probe n content rt).slots (.slot (n + r)) = ⟨tagOf .long, 0, 0⟩ :=
  if_neg (by omega)

/-- A probe tells the two activations apart in every stale register. -/
theorem probe_differs {n r : Nat} {stale : Nat → Prop} {content : Slot} {rt : Runtime}
    {S : Activation} (hcontent : content.value.type ≠ .long)
    (h : Related n stale (probe n content rt) F S) (hr : stale r) :
    (F.slots (.slot (n + r))).value ≠ (S.slots (.slot (n + r))).value := by
  intro heq
  have htype := congrArg Value.type heq
  rw [h.kept r hr, probe_reg] at htype
  rcases h.written r hr with htag | ⟨i, hi, hcopy⟩
  · rw [Slot.value, Slot.value, htag] at htype
    cases htype
  · rw [hcopy, probe_local content rt hi] at htype
    exact hcontent htype.symm

/-- A runtime with one array, and one with one instance whose first fields are ints. -/
def arrayRt (length : Nat) : Runtime := { heap := { objs := [{ kind := .array, length }] } }

def instanceRt (fields : Nat) : Runtime :=
  { heap := { objs := [{ kind := .inst, slots := replicate fields (.intVal 0) }] } }

/-- A reference to the one object of these runtimes. -/
def theRef : Slot := .ofValue (.refVal 1)

theorem arrayLength_probe {n i : Nat} (length : Nat) (dst : Addr) (hi : i < n) :
    afterHelper (b2cgArrayLength (probe n theRef (arrayRt length)) (.slot i) dst) =
      .next ((probe n theRef (arrayRt length)).setSlot dst
        (.ofValue (.intVal (BitVec.ofNat 32 length)))) := by
  unfold b2cgArrayLength
  rw [probe_local _ _ hi]
  rfl

theorem getField_probe {n i : Nat} (w : BitVec 32) (dst : Addr) (hi : i < n) :
    ∃ rt F, afterHelper (b2cgGetField (probe n theRef rt) (.slot i) w dst) = .next F := by
  let slot := Runtime.slotOfFieldOffset (w &&& 0x0FFFFFFF).toNat
  let rt := instanceRt (slot + 1)
  have hread : (rt.heap.loadField 1 slot).1.type ≠ .bottom := by
    simp [rt, instanceRt, Heap.loadField, Heap.obj, growTo, Value.intVal]
  refine ⟨rt, ?_⟩
  unfold b2cgGetField
  rw [probe_local _ _ hi]
  exact ⟨_, (congrArg afterHelper (if_neg hread)).trans rfl⟩

/-- The first step of a window reads a local, except in the loop closer. -/
theorem firstLocal_lt (hst : Structured m) (hacc : Accepted (superSpec s) m pc live)
    (hs : s ≠ .iincGoto) : (codeAt m (pc + 0)).immIdx < m.numLocals := by
  have hpos : 0 < (superSpec s).pattern.length := by
    cases s <;> simp [superSpec]
  have hinside := hacc.inside
  cases s with
  | iincGoto => exact absurd rfl hs
  | iloadIload f | iloadIloadIstore f | iloadIincIstore | iloadIstore | iloadIreturn
  | iloadIf t | iloadIconstIfIcmp t =>
    have h := stepOk hacc { op := .iload } 0 (by simp [superSpec])
    exact h.local_lt hst (by omega) (.inl rfl)
  | aloadGetfield | aloadArraylengthIf | aloadGetfieldIreturn =>
    have h := stepOk hacc { op := .aload } 0 (by simp [superSpec])
    exact h.local_lt hst (by omega) (.inl rfl)

theorem payload32_probe {n i : Nat} (v : BitVec 32) (rt : Runtime) (hi : i < n) :
    (probe n (intSlot v) rt).payload32 (.slot i) = v := by
  rw [payload32_eq, probe_local _ _ hi]
  exact setWidth_signExtend v

theorem iloadIf_probe (fieldWord : Nat → BitVec 32) (t : Test) (v : BitVec 32)
    (hl : (codeAt m (pc + 0)).immIdx < m.numLocals) :
    superEffect (windowAt m fieldWord pc) (.iloadIf t) (probe m.numLocals (intSlot v) {}) =
      branch (cmpHolds (testCc t) v 0) (branchTarget (superSpec (.iloadIf t)) m pc)
        (probe m.numLocals (intSlot v) {}) := by
  show branch (cmpHolds _ ((probe _ _ _).payload32 (.slot (codeAt m (pc + 0)).immIdx)) 0) _ _ = _
  rw [payload32_probe v {} hl]
  rfl

theorem iloadIconstIfIcmp_probe (fieldWord : Nat → BitVec 32) (t : Test) (v : BitVec 32)
    (hl : (codeAt m (pc + 0)).immIdx < m.numLocals) :
    superEffect (windowAt m fieldWord pc) (.iloadIconstIfIcmp t)
        (probe m.numLocals (intSlot v) {}) =
      branch (cmpHolds (testCc t) v (codeAt m (pc + 1)).imm)
        (branchTarget (superSpec (.iloadIconstIfIcmp t)) m pc)
        (probe m.numLocals (intSlot v) {}) := by
  show branch (cmpHolds _ ((probe _ _ _).payload32 (.slot (codeAt m (pc + 0)).immIdx)) _) _ _ = _
  rw [payload32_probe v {} hl]
  rfl

theorem arraylengthIf_probe (fieldWord : Nat → BitVec 32)
    (hacc : Accepted (superSpec .aloadArraylengthIf) m pc live) (length : Nat)
    (hl : (codeAt m (pc + 0)).immIdx < m.numLocals) :
    ∃ F, superEffect (windowAt m fieldWord pc) .aloadArraylengthIf
        (probe m.numLocals theRef (arrayRt length)) =
      branch (cmpHolds .g (BitVec.ofNat 32 length)
        (if (codeAt m (pc + 2)).bReg = (codeAt m (pc + 1)).dstReg then BitVec.ofNat 32 length
          else 0#32)) (branchTarget (superSpec .aloadArraylengthIf) m pc) F := by
  have h2 := stepOk hacc { op := .ifIcmpgt, useAsA := some 1 } 2 (by simp [superSpec])
  have hcmp := link_eq h2.linkA
  let W := windowAt m fieldWord pc
  let F := (probe m.numLocals theRef (arrayRt length)).setSlot (W.regAddr (W.ins 1).dstReg)
    (.ofValue (.intVal (BitVec.ofNat 32 length)))
  have hread : afterHelper (b2cgArrayLength (probe m.numLocals theRef (arrayRt length))
      (W.localAddr (W.ins 0).immIdx) (W.regAddr (W.ins 1).dstReg)) = .next F :=
    arrayLength_probe length _ hl
  have hlow : (Slot.ofValue (.intVal (BitVec.ofNat 32 length))).payload.setWidth 32 =
      BitVec.ofNat 32 length := by
    simp [Slot.ofValue, Value.intVal]
  have hreg : ∀ r, F.payload32 (W.regAddr r) =
      if r = (codeAt m (pc + 1)).dstReg then BitVec.ofNat 32 length else 0#32 := by
    intro r
    have hins : (W.ins 1).dstReg = (codeAt m (pc + 1)).dstReg := rfl
    rw [payload32_eq, setSlot_slots, hins]
    by_cases h : r = (codeAt m (pc + 1)).dstReg
    · rw [if_pos h, h, if_pos rfl, hlow]
    have hne : W.regAddr r ≠ W.regAddr (codeAt m (pc + 1)).dstReg := by
      intro heq
      injection heq with heq
      omega
    rw [if_neg h, if_neg hne]
    show ((probe m.numLocals _ _).slots (.slot (m.numLocals + r))).payload.setWidth 32 = _
    rw [probe_reg]
    rfl
  refine ⟨F, (superEffect_arraylengthIf hread).trans ?_⟩
  show branch (cmpHolds .g (F.payload32 (W.regAddr (codeAt m (pc + 2)).aReg))
    (F.payload32 (W.regAddr (codeAt m (pc + 2)).bReg))) _ F = _
  rw [hreg, hreg, if_pos hcmp.symm]
  rfl

theorem canJump_probe (hst : Structured m) (hacc : Accepted (superSpec s) m pc live)
    (h : CanJump m pc s) :
    ∃ content rt F, content.value.type ≠ .long ∧
      superEffect (windowAt m fieldWord pc) s (probe m.numLocals content rt) =
        .jump (branchTarget (superSpec s) m pc) F := by
  cases s with
  | iloadIload f | iloadIloadIstore f | iloadIincIstore | iloadIstore | iloadIreturn
  | aloadGetfield | iincGoto | aloadGetfieldIreturn => exact h.elim
  | iloadIf t =>
    obtain ⟨v, hv⟩ := h
    have hrun := iloadIf_probe fieldWord t v (firstLocal_lt hst hacc (by simp))
    rw [hv] at hrun
    exact ⟨intSlot v, {}, _, by simp, hrun⟩
  | iloadIconstIfIcmp t =>
    obtain ⟨v, hv⟩ := h
    have hrun :=
      iloadIconstIfIcmp_probe fieldWord t v (firstLocal_lt hst hacc (by simp))
    rw [hv] at hrun
    exact ⟨intSlot v, {}, _, by simp, hrun⟩
  | aloadArraylengthIf =>
    obtain ⟨F, hrun⟩ :=
      arraylengthIf_probe fieldWord hacc 1 (firstLocal_lt hst hacc (by simp))
    rw [if_neg h] at hrun
    exact ⟨theRef, arrayRt 1, F, by decide, hrun⟩

theorem canFall_probe (hst : Structured m) (hacc : Accepted (superSpec s) m pc live)
    (h : CanFall m pc s) :
    ∃ content rt F, content.value.type ≠ .long ∧
      superEffect (windowAt m fieldWord pc) s (probe m.numLocals content rt) = .next F := by
  cases s with
  | iloadIload f | iloadIloadIstore f | iloadIincIstore | iloadIstore =>
    exact ⟨intSlot 0, {}, _, by simp, rfl⟩
  | iloadIreturn | iincGoto | aloadGetfieldIreturn => exact h.elim
  | iloadIf t =>
    obtain ⟨v, hv⟩ := h
    have hrun := iloadIf_probe fieldWord t v (firstLocal_lt hst hacc (by simp))
    rw [hv] at hrun
    exact ⟨intSlot v, {}, _, by simp, hrun⟩
  | iloadIconstIfIcmp t =>
    obtain ⟨v, hv⟩ := h
    have hrun := iloadIconstIfIcmp_probe fieldWord t v (firstLocal_lt hst hacc (by simp))
    rw [hv] at hrun
    exact ⟨intSlot v, {}, _, by simp, hrun⟩
  | aloadGetfield =>
    obtain ⟨rt, F, hrun⟩ := getField_probe (fieldWord (codeAt m (pc + 1)).immIdx)
      (.slot (m.numLocals + (codeAt m (pc + 1)).dstReg)) (firstLocal_lt hst hacc (by simp))
    exact ⟨theRef, rt, F, by decide, hrun⟩
  | aloadArraylengthIf =>
    obtain ⟨F, hrun⟩ := arraylengthIf_probe fieldWord hacc 0 (firstLocal_lt hst hacc (by simp))
    rw [ite_self] at hrun
    exact ⟨theRef, arrayRt 0, F, by decide, hrun⟩

/-- Every stale register is dead at the branch target, if the branch can be taken, and
no gap of the analysis hides a read of it behind the window, if control can get there. -/
def StaleDead (cand : StencilDesc) (m : Method) (pc : Nat) : Prop :=
  ∀ r, Stale cand m pc r → (CanJump m pc cand.name → ¬LiveAt m r (branchTarget cand m pc)) ∧
      (CanFall m pc cand.name → ¬MissedAt m r (pc + cand.pattern.length))

/-- A probe that leaves the window shows the stale registers there to be dead. -/
theorem dead_of_probe (hst : Structured m) (hacc : Accepted (superSpec s) m pc live)
    (hagrees : FusedAgrees m fieldWord (superSpec s) pc) {content : Slot} {rt : Runtime}
    (hcontent : content.value.type ≠ .long) {r : Nat} (hr : Stale (superSpec s) m pc r) :
    (∀ F, superEffect (windowAt m fieldWord pc) s (probe m.numLocals content rt) = .next F →
      ¬LiveAt m r (pc + (superSpec s).pattern.length)) ∧
    ∀ t F, superEffect (windowAt m fieldWord pc) s (probe m.numLocals content rt) = .jump t F →
      ¬LiveAt m r t := by
  obtain ⟨e, heff, hsame⟩ :=
    (fusedAgrees_iff_effects hacc).mp hagrees (probe m.numLocals content rt)
  obtain ⟨e', heff', hrel⟩ := fused_spec fieldWord hst s hacc (probe m.numLocals content rt)
  have he : e' = e := by
    rw [heff'] at heff
    exact Option.some.inj heff
  subst he
  constructor
  · intro F hF hlive
    rw [hF] at hsame hrel
    cases hsame with
    | next h =>
      cases hrel with
      | next hrel => exact probe_differs hcontent hrel hr (h.regs r hlive)
  · intro t F hF hlive
    rw [hF] at hsame hrel
    cases hsame with
    | jump h =>
      cases hrel with
      | jump hrel => exact probe_differs hcontent hrel hr (h.regs r hlive)

theorem fusedAgrees_iff_staleDead (hst : Structured m)
    (hfix : ∀ p, p < m.code.length → liveTransfer m p (setAt live) = setAt live p)
    (hacc : Accepted (superSpec s) m pc live) :
    FusedAgrees m fieldWord (superSpec s) pc ↔ StaleDead (superSpec s) m pc := by
  have hname : (superSpec s).name = s := by cases s <;> rfl
  rw [StaleDead, hname]
  constructor
  · intro hagrees r hr
    constructor
    · intro hjump
      obtain ⟨content, rt, F, hcontent, hrun⟩ := canJump_probe hst hacc hjump
      exact (dead_of_probe hst hacc hagrees hcontent hr).2 _ F hrun
    · intro hfall hmissed
      obtain ⟨content, rt, F, hcontent, hrun⟩ := canFall_probe hst hacc hfall
      exact (dead_of_probe hst hacc hagrees hcontent hr).1 F hrun hmissed.liveAt
  · intro hdead
    refine (fusedAgrees_iff_effects hacc).mpr fun A => ?_
    obtain ⟨e, heff, hrel⟩ := fused_spec fieldWord hst s hacc A
    refine ⟨e, heff, hrel.sameExit ?_ ?_⟩
    · intro F hF r hr hlive
      exact (hdead r hr).2 (next_of_fused s hF) (missed_of_stale hst hfix hacc hr hlive)
    · intro t F hF r hr hlive
      rcases jump_of_fused s hacc hF with ⟨rfl, hjump⟩ | hnone
      · exact (hdead r hr).1 hjump hlive
      · exact hnone r hr

end Exits

/-! ## Accepted windows of verified methods -/

theorem exists_superSpec {cand : StencilDesc} (h : cand ∈ kSuperSpecs) :
    ∃ s, cand = superSpec s := by
  obtain ⟨s, _, rfl⟩ := mem_map.mp h
  exact ⟨s, rfl⟩

theorem match_of_any {m : Method} {cand : StencilDesc} {pc : Nat} {live : List (Finset Nat)}
    (h : (computeLiveness m).any (matchSuper cand m pc (computeFusionBlocked m)) = true)
    (hlive : computeLiveness m = some live) :
    matchSuper cand m pc (computeFusionBlocked m) live = true := by
  rw [hlive] at h
  exact h

/-- `return a + b`. -/
def addPair : Method where
  name := "add"
  descriptor := "(II)I"
  flags := 0x0008
  numRegs := 3
  numLocals := 2
  code := [⟨.iload, 0, 0, 0, 0⟩, ⟨.iload, 1, 0, 0, 1⟩, ⟨.iadd, 2, 0, 1, 0⟩, ⟨.ireturn, 0, 2, 0, 0⟩]

/-- `return a == 0 ? a : 5`, with the branch over the constant. -/
def zeroTest : Method where
  name := "zeroTest"
  descriptor := "(I)I"
  flags := 0x0008
  numRegs := 1
  numLocals := 1
  code := [⟨.iload, 0, 0, 0, 0⟩, ⟨.ifeq, 0, 0, 0, 4⟩, ⟨.iconst, 0, 0, 0, 5⟩, ⟨.ireturn, 0, 0, 0, 0⟩,
    ⟨.ireturn, 0, 0, 0, 0⟩]

end B2Compiler.Codegen.Fusion
