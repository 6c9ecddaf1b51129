import B2Compiler.Codegen.FusionEffects
import B2Compiler.Baseline.LiveRegs

/-!
# Fused windows against the instructions they cover

The guard of the plan builder looks at the registers live behind the window only.
A window that ends in a branch also continues at the branch target, where a
register the fused body did not write can be live; and behind the window the
liveness analysis has gaps.  Away from these two a fused body leaves locals, live
registers, heap and next pc as the instructions of the window do.
-/

namespace B2Compiler.Codegen.Fusion

open Rbc List Bool
open Interp
open Baseline
open Codegen (Gpr kA kB kTagInt typeOfTag)
open Lib.X86 (Flags Cond)
open Lib.Sweep (setAt)

def windowAt (m : Method) (fieldWord : Nat → BitVec 32) (pc : Nat) : Window :=
  ⟨fun k => codeAt m (pc + k), m.numLocals, fieldWord⟩

/-- Two activations with the same locals, the same registers in `L`, the same return
slot and pending trap, and the same runtime. -/
structure Same (n : Nat) (L : Nat → Prop) (A B : Activation) : Prop where
  locals : ∀ i, i < n → (A.slots (.slot i)).value = (B.slots (.slot i)).value
  regs : ∀ r, L r → (A.slots (.slot (n + r))).value = (B.slots (.slot (n + r))).value
  ret : (A.slots .ret).value = (B.slots .ret).value
  trapKind : A.trapKind = B.trapKind
  pendingExc : A.pendingExc = B.pendingExc
  rt : A.rt = B.rt

/-- The same exit with activations that agree on what is live there.  No register
survives a return, and none survives a trap: a handler starts without registers. -/
inductive SameExit (m : Method) (fall : Nat) : Exit Activation → Exit Activation → Prop where
  | next {A B : Activation} (h : Same m.numLocals (fun r => LiveAt m r fall) A B) :
      SameExit m fall (.next A) (.next B)
  | jump {t : Nat} {A B : Activation} (h : Same m.numLocals (fun r => LiveAt m r t) A B) :
      SameExit m fall (.jump t A) (.jump t B)
  | ret {A B : Activation} (h : Same m.numLocals (fun _ => False) A B) :
      SameExit m fall (.ret A) (.ret B)
  | deopt {A B : Activation} (h : Same m.numLocals (fun _ => False) A B) :
      SameExit m fall (.deopt A) (.deopt B)

/-- The exception-table entries that cover a pc. -/
def coveringHandlers (m : Method) (pc : Nat) : List ExceptionHandler :=
  m.handlers.filter fun h => h.start ≤ pc && pc < h.stop

/-- The fused body does what the instructions of the window do one after another,
from every machine state; a trap anywhere in the window is covered by the handlers
of its start, where the fused body reports it. -/
structure FusedAgrees (m : Method) (fieldWord : Nat → BitVec 32) (cand : StencilDesc)
    (pc : Nat) : Prop where
  exits : ∀ c : Cpu, ∃ e, runSteps (windowAt m fieldWord pc) 0 cand.pattern.length c = some e ∧
      SameExit m (pc + cand.pattern.length)
        ((run (windowAt m fieldWord pc) (emitSuperBody cand.name) c).map Cpu.act) (e.map Cpu.act)
  handlers : ∀ k, k < cand.pattern.length → coveringHandlers m (pc + k) = coveringHandlers m pc

/-! ## The guard -/

/-- The destinations of the steps whose results the fused body skips. -/
def skippedDsts (cand : StencilDesc) (m : Method) (pc : Nat) : List Nat :=
  ((range cand.pattern.length).filter fun k => cand.dstSkipMask.getLsbD k).map
    fun k => (codeAt m (pc + k)).dstReg

/-- The destinations of the steps whose results it writes. -/
def writtenDsts (cand : StencilDesc) (m : Method) (pc : Nat) : List Nat :=
  ((range cand.pattern.length).filter fun k =>
    !cand.dstSkipMask.getLsbD k && definesDst (codeAt m (pc + k))).map
    fun k => (codeAt m (pc + k)).dstReg

/-- A register the fused body leaves stale: a skipped result goes there and no
written one does. -/
def Stale (cand : StencilDesc) (m : Method) (pc r : Nat) : Prop :=
  r ∈ skippedDsts cand m pc ∧ r ∉ writtenDsts cand m pc

/-- Can the closing branch of the window be taken?  The second operand of a length
test may be the length itself. -/
def CanJump (m : Method) (pc : Nat) : SuperName → Prop
  | .iloadIf t => ∃ v, cmpHolds (testCc t) v 0 = true
  | .iloadIconstIfIcmp t => ∃ v, cmpHolds (testCc t) v (codeAt m (pc + 1)).imm = true
  | .aloadArraylengthIf => (codeAt m (pc + 2)).bReg ≠ (codeAt m (pc + 1)).dstReg
  | _ => False

/-- Can control reach the instruction behind the window from its last one? -/
def CanFall (m : Method) (pc : Nat) : SuperName → Prop
  | .iloadIf t => ∃ v, cmpHolds (testCc t) v 0 = false
  | .iloadIconstIfIcmp t => ∃ v, cmpHolds (testCc t) v (codeAt m (pc + 1)).imm = false
  | .iincGoto | .iloadIreturn | .aloadGetfieldIreturn => False
  | _ => True

/-- Target of the branch a window ends in. -/
def branchTarget (cand : StencilDesc) (m : Method) (pc : Nat) : Nat :=
  (codeAt m (pc + cand.pattern.length - 1)).immIdx

/-- What an accepted window satisfies. -/
structure Accepted (cand : StencilDesc) (m : Method) (pc : Nat) (live : List (Finset Nat)) :
    Prop where
  inside : pc + cand.pattern.length ≤ m.code.length
  steps : ∀ s ∈ cand.pattern.zipIdx, stepMatches cand m pc s.2 s.1 = true
  dead : ∀ k, k < cand.pattern.length → cand.dstSkipMask.getLsbD k = true →
    (codeAt m (pc + k)).dstReg ∉ setAt live (pc + cand.pattern.length)
  unblocked : ∀ t, 0 < t → t < cand.pattern.length → pc + t ∉ computeFusionBlocked m

variable {cand : StencilDesc}

theorem accepted_of_matchSuper {m : Method} {pc : Nat} {live : List (Finset Nat)}
    (h : matchSuper cand m pc (computeFusionBlocked m) live = true) : Accepted cand m pc live := by
  unfold matchSuper at h
  dsimp only at h
  simp only [and_eq_true, decide_eq_true_eq, all_eq_true, mem_range] at h
  obtain ⟨⟨⟨⟨_, hinside⟩, hsteps⟩, hdead⟩, hblocked⟩ := h
  refine ⟨hinside, hsteps, ?_, ?_⟩
  · intro k hk hmask hmem
    have hk' := hdead k hk
    rw [hmask, decide_eq_true hmem] at hk'
    cases hk'
  · intro t hpos ht hmem
    have ht' := hblocked t ht
    simp only [or_eq_true, beq_iff_eq, not_eq_true', contains_eq_mem,
      decide_eq_false_iff_not] at ht'
    rcases ht' with h0 | hno
    · omega
    · exact hno hmem

/-- What the checks of one step say. -/
structure StepOk (cand : StencilDesc) (m : Method) (pc k : Nat) (step : PatternStep) : Prop where
  op : (codeAt m (pc + k)).op = step.op
  linkA : linkHolds m pc k (codeAt m (pc + k)).aReg step.useAsA = true
  linkB : linkHolds m pc k (codeAt m (pc + k)).bReg step.useAsB = true
  linkDst : linkHolds m pc k (codeAt m (pc + k)).dstReg step.thenDstOf = true
  unread : readsSkipped cand m pc k step = false

theorem stepOk {m : Method} {pc : Nat} {live : List (Finset Nat)} (h : Accepted cand m pc live)
    (step : PatternStep) (k : Nat) (hmem : (step, k) ∈ cand.pattern.zipIdx) :
    StepOk cand m pc k step := by
  have hstep := h.steps (step, k) hmem
  unfold stepMatches at hstep
  dsimp only at hstep
  simp only [and_eq_true, beq_iff_eq, not_eq_true'] at hstep
  obtain ⟨⟨⟨⟨hop, ha⟩, hb⟩, hd⟩, hread⟩ := hstep
  exact ⟨hop, ha, hb, hd, hread⟩

theorem link_eq {m : Method} {pc k reg link : Nat}
    (h : linkHolds m pc k reg (some link) = true) : (codeAt m (pc + link)).dstReg = reg := by
  simp only [linkHolds, and_eq_true, beq_iff_eq] at h
  exact h.1.2

theorem link_ne {m : Method} {pc k reg link : Nat}
    (h : linkHolds m pc k reg (some link) = true) (mid : Nat) (hlo : link < mid) (hhi : mid < k) :
    (codeAt m (pc + mid)).dstReg ≠ reg := by
  simp only [linkHolds, and_eq_true, all_eq_true, mem_range, not_eq_true',
    and_eq_false_iff, decide_eq_false_iff_not, beq_eq_false_iff_ne] at h
  rcases h.2 mid hhi with hno | hne
  · exact absurd hlo hno
  · exact hne

/-- No handler boundary lies inside an accepted window. -/
theorem handlers_of_accepted {m : Method} {pc : Nat} {live : List (Finset Nat)}
    (h : Accepted cand m pc live) (k : Nat) (hk : k < cand.pattern.length) :
    coveringHandlers m (pc + k) = coveringHandlers m pc := by
  apply filter_congr
  intro e he
  have hblocked : ∀ b, b = e.start ∨ b = e.stop → pc < b → b ≤ pc + k → False := by
    intro b hb hlo hhi
    apply h.unblocked (b - pc) (by omega) (by omega)
    rw [show pc + (b - pc) = b by omega]
    apply mem_append_right
    rw [mem_filter]
    refine ⟨mem_flatMap.mpr ⟨e, he, ?_⟩, ?_⟩
    · rcases hb with rfl | rfl <;> simp
    · have := h.inside
      simp only [decide_eq_true_eq]
      omega
  have hstart := hblocked e.start (Or.inl rfl)
  have hstop := hblocked e.stop (Or.inr rfl)
  by_cases h₁ : pc < e.start
  · have h₂ : pc + k < e.start := by
      by_contra hc
      exact hstart h₁ (by omega)
    simp [Nat.not_le.mpr h₁, Nat.not_le.mpr h₂]
  · by_cases h₃ : pc < e.stop
    · have h₄ : pc + k < e.stop := by
        by_contra hc
        exact hstop h₃ (by omega)
      have h₅ : e.start ≤ pc := by omega
      have h₆ : e.start ≤ pc + k := by omega
      simp [h₃, h₄, h₅, h₆]
    · have h₄ : ¬pc + k < e.stop := by omega
      simp [h₃, h₄]

/-- A fused activation `F` and a stepped one `S` from the same start `A`: they differ
in stale registers only, where the fused one is as at the start and the stepped one
holds an int or the content of a local. -/
structure Related (n : Nat) (stale : Nat → Prop) (A F S : Activation) : Prop where
  same : Same n (fun r => ¬stale r) F S
  kept : ∀ r, stale r → F.slots (.slot (n + r)) = A.slots (.slot (n + r))
  written : ∀ r, stale r → (S.slots (.slot (n + r))).tag = kTagInt ∨
    ∃ i, i < n ∧ S.slots (.slot (n + r)) = A.slots (.slot i)

/-- Exits of the fused body and of the steps from the same start. -/
inductive RelatedExit (n : Nat) (stale : Nat → Prop) (A : Activation) :
    Exit Activation → Exit Activation → Prop where
  | next {F S : Activation} (h : Related n stale A F S) : RelatedExit n stale A (.next F) (.next S)
  | jump {t : Nat} {F S : Activation} (h : Related n stale A F S) :
      RelatedExit n stale A (.jump t F) (.jump t S)
  | ret {F S : Activation} (h : Same n (fun _ => False) F S) :
      RelatedExit n stale A (.ret F) (.ret S)
  | deopt {F S : Activation} (h : Same n (fun _ => False) F S) :
      RelatedExit n stale A (.deopt F) (.deopt S)

theorem RelatedExit.of_fused {n : Nat} {stale : Nat → Prop} {A : Activation}
    {e e' s : Exit Activation} (h : e = e') (hrel : RelatedExit n stale A e' s) :
    RelatedExit n stale A e s := h ▸ hrel

/-- Both take the closing branch or neither does. -/
theorem RelatedExit.branch {n : Nat} {stale : Nat → Prop} {A F S : Activation}
    {taken taken' : Bool} {t : Nat} (htaken : taken = taken') (h : Related n stale A F S) :
    RelatedExit n stale A (Fusion.branch taken t F) (Fusion.branch taken' t S) := by
  subst htaken
  cases taken with
  | false => exact .next h
  | true => exact .jump h

theorem related_of_slots {n : Nat} {stale : Nat → Prop} {A F S : Activation}
    (hkind : F.trapKind = S.trapKind) (hexc : F.pendingExc = S.pendingExc) (hrt : F.rt = S.rt)
    (hsame : ∀ a, (∀ r, stale r → a ≠ .slot (n + r)) → (F.slots a).value = (S.slots a).value)
    (hstale : ∀ r, stale r → F.slots (.slot (n + r)) = A.slots (.slot (n + r)) ∧
      ((S.slots (.slot (n + r))).tag = kTagInt ∨
        ∃ i, i < n ∧ S.slots (.slot (n + r)) = A.slots (.slot i))) :
    Related n stale A F S := by
  refine ⟨⟨?_, ?_, ?_, hkind, hexc, hrt⟩, fun r hr => (hstale r hr).1, fun r hr => (hstale r hr).2⟩
  · intro i hi
    apply hsame
    intro r _ heq
    injection heq with heq
    omega
  · intro r hr
    apply hsame
    intro q hq heq
    injection heq with heq
    have hrq : r = q := by omega
    exact hr (hrq ▸ hq)
  · apply hsame
    intro r _ heq
    cases heq

/-! ## Windows of every pattern -/

section Families

variable {m : Method} {fieldWord : Nat → BitVec 32} {pc : Nat} {live : List (Finset Nat)}

@[grind =] theorem setSlot_slots (A : Activation) (a b : Addr) (s : Slot) :
    (A.setSlot a s).slots b = if b = a then s else A.slots b :=
  Function.update_apply _ _ _ _

@[grind =] theorem windowAt_ins (k : Nat) :
    (windowAt m fieldWord pc).ins k = codeAt m (pc + k) := rfl

@[grind =] theorem windowAt_regAddr (r : Nat) :
    (windowAt m fieldWord pc).regAddr r = .slot (m.numLocals + r) := rfl

@[grind =] theorem windowAt_localAddr (i : Nat) :
    (windowAt m fieldWord pc).localAddr i = .slot i := rfl

@[grind =] theorem payload32_eq (A : Activation) (a : Addr) :
    A.payload32 a = (A.slots a).payload.setWidth 32 := rfl

@[grind =] theorem tag_putInt (s : Slot) (v : BitVec 32) : (s.putInt v).tag = kTagInt := rfl

@[grind =] theorem payload_putInt (s : Slot) (v : BitVec 32) :
    (s.putInt v).payload.setWidth 32 = v := setWidth_signExtend v

/-- The local of a load or store of an accepted method. -/
theorem StepOk.local_lt {k : Nat} {step : PatternStep} (h : StepOk cand m pc k step)
    (hst : Structured m) (hlt : pc + k < m.code.length)
    (hsig : (info step.op).sig = .regSlot ∨ (info step.op).sig = .slotReg) :
    (codeAt m (pc + k)).immIdx < m.numLocals :=
  (hst.wellFormed hlt).slot (by rwa [h.op])

variable {ins : Ins}

theorem definesDst_arith (f : Arith) (h : ins.op = f.op) : definesDst ins = true := by
  unfold definesDst
  rw [h]
  cases f <;> rfl

theorem definesDst_store (h : ins.op = .istore) : definesDst ins = false := by
  unfold definesDst
  rw [h]
  rfl

theorem definesDst_if (t : Test) (h : ins.op = t.ifOp) : definesDst ins = false := by
  unfold definesDst
  rw [h]
  cases t <;> rfl

theorem definesDst_ifIcmp (t : Test) (h : ins.op = t.ifIcmpOp) : definesDst ins = false := by
  unfold definesDst
  rw [h]
  cases t <;> rfl

theorem definesDst_getfield (h : ins.op = .getfield) : definesDst ins = true := by
  unfold definesDst
  rw [h]
  rfl

theorem definesDst_arraylength (h : ins.op = .arraylength) : definesDst ins = true := by
  unfold definesDst
  rw [h]
  rfl

/-- The fused body and the `n` instructions it stands for leave activations that differ in
stale registers only. -/
def Fused (m : Method) (fieldWord : Nat → BitVec 32) (pc : Nat) (s : SuperName) (n : Nat) : Prop :=
  ∀ A, ∃ e, effects (windowAt m fieldWord pc) 0 n A = some e ∧
    RelatedExit m.numLocals (Stale (superSpec s) m pc) A
      (superEffect (windowAt m fieldWord pc) s A) e

theorem fused_iloadIload (hst : Structured m) (f : Arith)
    (hacc : Accepted (superSpec (.iloadIload f)) m pc live) :
    Fused m fieldWord pc (.iloadIload f) 3 := by
  intro A
  have h0 := stepOk hacc { op := .iload } 0 (by simp [superSpec])
  have h1 := stepOk hacc { op := .iload } 1 (by simp [superSpec])
  have h2 := stepOk hacc { op := f.op, useAsA := some 0, useAsB := some 1 } 2 (by simp [superSpec])
  have hlen : pc + 3 ≤ m.code.length := hacc.inside
  have hl0 := h0.local_lt hst (by omega) (.inl rfl)
  have hl1 := h1.local_lt hst (by omega) (.inl rfl)
  have ha := link_eq h2.linkA
  have hb := link_eq h2.linkB
  have hne := link_ne h2.linkA 1 (by omega) (by omega)
  have hskip : skippedDsts (superSpec (.iloadIload f)) m pc =
      [(codeAt m (pc + 0)).dstReg, (codeAt m (pc + 1)).dstReg] := by
    simp [skippedDsts, superSpec, range_succ]
  have hwrite : writtenDsts (superSpec (.iloadIload f)) m pc = [(codeAt m (pc + 2)).dstReg] := by
    simp [writtenDsts, superSpec, range_succ, definesDst_arith f h2.op]
  rw [effects_next (effect_load (Or.inl h0.op)), effects_next (effect_load (Or.inl h1.op)),
    effects_next (effect_arith f h2.op), effects]
  refine ⟨_, rfl, .next (related_of_slots rfl rfl rfl ?_ ?_)⟩
  all_goals
    simp only [Stale, hskip, hwrite]
    grind

theorem fused_iloadIloadIstore (hst : Structured m) (f : Arith)
    (hacc : Accepted (superSpec (.iloadIloadIstore f)) m pc live) :
    Fused m fieldWord pc (.iloadIloadIstore f) 4 := by
  intro A
  have h0 := stepOk hacc { op := .iload } 0 (by simp [superSpec])
  have h1 := stepOk hacc { op := .iload } 1 (by simp [superSpec])
  have h2 := stepOk hacc { op := f.op, useAsA := some 0, useAsB := some 1 } 2 (by simp [superSpec])
  have h3 := stepOk hacc { op := .istore, useAsA := some 2 } 3 (by simp [superSpec])
  have hlen : pc + 4 ≤ m.code.length := hacc.inside
  have hl0 := h0.local_lt hst (by omega) (.inl rfl)
  have hl1 := h1.local_lt hst (by omega) (.inl rfl)
  have hl3 := h3.local_lt hst (by omega) (.inr rfl)
  have ha := link_eq h2.linkA
  have hb := link_eq h2.linkB
  have hne := link_ne h2.linkA 1 (by omega) (by omega)
  have hstored := link_eq h3.linkA
  have hskip : skippedDsts (superSpec (.iloadIloadIstore f)) m pc =
      [(codeAt m (pc + 0)).dstReg, (codeAt m (pc + 1)).dstReg, (codeAt m (pc + 2)).dstReg] := by
    simp [skippedDsts, superSpec, range_succ]
  have hwrite : writtenDsts (superSpec (.iloadIloadIstore f)) m pc = [] := by
    simp [writtenDsts, superSpec, range_succ, definesDst_store h3.op]
  rw [effects_next (effect_load (Or.inl h0.op)), effects_next (effect_load (Or.inl h1.op)),
    effects_next (effect_arith f h2.op), effects_next (effect_store h3.op), effects]
  refine ⟨_, rfl, .next (related_of_slots rfl rfl rfl ?_ ?_)⟩
  all_goals
    simp only [Stale, hskip, hwrite]
    grind

theorem fused_iloadIincIstore (hst : Structured m)
    (hacc : Accepted (superSpec .iloadIincIstore) m pc live) :
    Fused m fieldWord pc .iloadIincIstore 3 := by
  intro A
  have h0 := stepOk hacc { op := .iload } 0 (by simp [superSpec])
  have h1 := stepOk hacc { op := .iinc, thenDstOf := some 0 } 1 (by simp [superSpec])
  have h2 := stepOk hacc { op := .istore, useAsA := some 1 } 2 (by simp [superSpec])
  have hlen : pc + 3 ≤ m.code.length := hacc.inside
  have hl0 := h0.local_lt hst (by omega) (.inl rfl)
  have hl2 := h2.local_lt hst (by omega) (.inr rfl)
  have hdst := link_eq h1.linkDst
  have hstored := link_eq h2.linkA
  have hskip : skippedDsts (superSpec .iloadIincIstore) m pc =
      [(codeAt m (pc + 0)).dstReg, (codeAt m (pc + 1)).dstReg] := by
    simp [skippedDsts, superSpec, range_succ]
  have hwrite : writtenDsts (superSpec .iloadIincIstore) m pc = [] := by
    simp [writtenDsts, superSpec, range_succ, definesDst_store h2.op]
  rw [effects_next (effect_load (Or.inl h0.op)), effects_next (effect_iinc h1.op),
    effects_next (effect_store h2.op), effects]
  refine ⟨_, rfl, .next (related_of_slots rfl rfl rfl ?_ ?_)⟩
  all_goals
    simp only [Stale, hskip, hwrite]
    grind

theorem fused_iloadIstore (hst : Structured m)
    (hacc : Accepted (superSpec .iloadIstore) m pc live) :
    Fused m fieldWord pc .iloadIstore 2 := by
  intro A
  have h0 := stepOk hacc { op := .iload } 0 (by simp [superSpec])
  have h1 := stepOk hacc { op := .istore, useAsA := some 0 } 1 (by simp [superSpec])
  have hlen : pc + 2 ≤ m.code.length := hacc.inside
  have hl0 := h0.local_lt hst (by omega) (.inl rfl)
  have hl1 := h1.local_lt hst (by omega) (.inr rfl)
  have hstored := link_eq h1.linkA
  have hskip : skippedDsts (superSpec .iloadIstore) m pc = [(codeAt m (pc + 0)).dstReg] := by
    simp [skippedDsts, superSpec, range_succ]
  have hwrite : writtenDsts (superSpec .iloadIstore) m pc = [] := by
    simp [writtenDsts, superSpec, range_succ, definesDst_store h1.op]
  rw [effects_next (effect_load (Or.inl h0.op)), effects_next (effect_store h1.op), effects]
  refine ⟨_, rfl, .next (related_of_slots rfl rfl rfl ?_ ?_)⟩
  all_goals
    simp only [Stale, hskip, hwrite]
    grind

theorem fused_iloadIreturn (hacc : Accepted (superSpec .iloadIreturn) m pc live) :
    Fused m fieldWord pc .iloadIreturn 2 := by
  intro A
  have h0 := stepOk hacc { op := .iload } 0 (by simp [superSpec])
  have h1 := stepOk hacc { op := .ireturn, useAsA := some 0 } 1 (by simp [superSpec])
  have ha := link_eq h1.linkA
  rw [effects_next (effect_load (Or.inl h0.op)), effects_ret (effect_ireturn h1.op)]
  refine ⟨_, rfl, .ret ⟨?_, fun _ h => h.elim, ?_, rfl, rfl, rfl⟩⟩
  all_goals grind

theorem fused_iloadIf (hst : Structured m) (t : Test)
    (hacc : Accepted (superSpec (.iloadIf t)) m pc live) :
    Fused m fieldWord pc (.iloadIf t) 2 := by
  intro A
  have h0 := stepOk hacc { op := .iload } 0 (by simp [superSpec])
  have h1 := stepOk hacc { op := t.ifOp, useAsA := some 0 } 1 (by simp [superSpec])
  have hlen : pc + 2 ≤ m.code.length := hacc.inside
  have hl0 := h0.local_lt hst (by omega) (.inl rfl)
  have ha := link_eq h1.linkA
  have hskip : skippedDsts (superSpec (.iloadIf t)) m pc = [(codeAt m (pc + 0)).dstReg] := by
    simp [skippedDsts, superSpec, range_succ]
  have hwrite : writtenDsts (superSpec (.iloadIf t)) m pc = [] := by
    simp [writtenDsts, superSpec, range_succ, definesDst_if t h1.op]
  rw [effects_next (effect_load (Or.inl h0.op)), effects_branch (effect_if t h1.op)]
  refine ⟨_, rfl, .branch ?_ (related_of_slots rfl rfl rfl ?_ ?_)⟩
  · grind
  all_goals
    simp only [Stale, hskip, hwrite]
    grind

theorem fused_iloadIconstIfIcmp (hst : Structured m) (t : Test)
    (hacc : Accepted (superSpec (.iloadIconstIfIcmp t)) m pc live) :
    Fused m fieldWord pc (.iloadIconstIfIcmp t) 3 := by
  intro A
  have h0 := stepOk hacc { op := .iload } 0 (by simp [superSpec])
  have h1 := stepOk hacc { op := .iconst } 1 (by simp [superSpec])
  have h2 := stepOk hacc { op := t.ifIcmpOp, useAsA := some 0, useAsB := some 1 } 2
    (by simp [superSpec])
  have hlen : pc + 3 ≤ m.code.length := hacc.inside
  have hl0 := h0.local_lt hst (by omega) (.inl rfl)
  have ha := link_eq h2.linkA
  have hb := link_eq h2.linkB
  have hne := link_ne h2.linkA 1 (by omega) (by omega)
  have hskip : skippedDsts (superSpec (.iloadIconstIfIcmp t)) m pc =
      [(codeAt m (pc + 0)).dstReg, (codeAt m (pc + 1)).dstReg] := by
    simp [skippedDsts, superSpec, range_succ]
  have hwrite : writtenDsts (superSpec (.iloadIconstIfIcmp t)) m pc = [] := by
    simp [writtenDsts, superSpec, range_succ, definesDst_ifIcmp t h2.op]
  rw [effects_next (effect_load (Or.inl h0.op)), effects_next (effect_iconst h1.op),
    effects_branch (effect_ifIcmp t h2.op)]
  refine ⟨_, rfl, .branch ?_ (related_of_slots rfl rfl rfl ?_ ?_)⟩
  · grind
  all_goals
    simp only [Stale, hskip, hwrite]
    grind

theorem fused_iincGoto (hacc : Accepted (superSpec .iincGoto) m pc live) :
    Fused m fieldWord pc .iincGoto 2 := by
  intro A
  have h0 := stepOk hacc { op := .iinc } 0 (by simp [superSpec])
  have h1 := stepOk hacc { op := .goto } 1 (by simp [superSpec])
  have hskip : skippedDsts (superSpec .iincGoto) m pc = [] := by
    simp [skippedDsts, superSpec, range_succ]
  rw [effects_next (effect_iinc h0.op), effects_jump (effect_goto h1.op)]
  refine ⟨_, rfl, .jump (related_of_slots rfl rfl rfl (fun _ _ => rfl) ?_)⟩
  · simp only [Stale, hskip]
    grind

/-- The object of a field or length read: the fused body takes it from the local, the
instruction from the register the load has filled. -/
theorem loaded_value (fieldWord : Nat → BitVec 32) (A : Activation)
    (ha : (codeAt m (pc + 0)).dstReg = (codeAt m (pc + 1)).aReg) :
    (A.slots ((windowAt m fieldWord pc).localAddr ((windowAt m fieldWord pc).ins 0).immIdx)).value =
      ((A.setSlot ((windowAt m fieldWord pc).regAddr ((windowAt m fieldWord pc).ins 0).dstReg)
        (A.slots ((windowAt m fieldWord pc).localAddr
          ((windowAt m fieldWord pc).ins 0).immIdx))).slots
        ((windowAt m fieldWord pc).regAddr ((windowAt m fieldWord pc).ins 1).aReg)).value := by
  grind

theorem fused_aloadGetfield (hst : Structured m)
    (hacc : Accepted (superSpec .aloadGetfield) m pc live) :
    Fused m fieldWord pc .aloadGetfield 2 := by
  intro A
  have h0 := stepOk hacc { op := .aload } 0 (by simp [superSpec])
  have h1 := stepOk hacc { op := .getfield, useAsA := some 0 } 1 (by simp [superSpec])
  have hlen : pc + 2 ≤ m.code.length := hacc.inside
  have hl0 := h0.local_lt hst (by omega) (.inl rfl)
  have ha := link_eq h1.linkA
  have hskip : skippedDsts (superSpec .aloadGetfield) m pc = [(codeAt m (pc + 0)).dstReg] := by
    simp [skippedDsts, superSpec, range_succ]
  have hwrite : writtenDsts (superSpec .aloadGetfield) m pc = [(codeAt m (pc + 1)).dstReg] := by
    simp [writtenDsts, superSpec, range_succ, definesDst_getfield h1.op]
  rw [effects_next (effect_load (Or.inr h0.op))]
  rcases getField_pair (fieldWord (codeAt m (pc + 1)).immIdx)
      (.slot (m.numLocals + (codeAt m (pc + 1)).dstReg))
      (.slot (m.numLocals + (codeAt m (pc + 1)).dstReg)) (loaded_value fieldWord A ha) rfl
    with ⟨v, rt, hF, hS⟩ | ⟨exc, rt, hF, hS⟩
  · rw [effects_next ((effect_getfield h1.op).trans (congrArg some hS)), effects]
    refine ⟨_, rfl, ?_⟩
    refine RelatedExit.of_fused hF (.next (related_of_slots rfl rfl rfl ?_ ?_))
    all_goals
      simp only [Stale, hskip, hwrite]
      grind
  · rw [effects_deopt ((effect_getfield h1.op).trans (congrArg some hS))]
    refine ⟨_, rfl, ?_⟩
    refine RelatedExit.of_fused hF (.deopt ⟨?_, fun _ h => h.elim, ?_, rfl, rfl, rfl⟩)
    all_goals grind

theorem fused_aloadGetfieldIreturn (hacc : Accepted (superSpec .aloadGetfieldIreturn) m pc live) :
    Fused m fieldWord pc .aloadGetfieldIreturn 3 := by
  intro A
  have h0 := stepOk hacc { op := .aload } 0 (by simp [superSpec])
  have h1 := stepOk hacc { op := .getfield, useAsA := some 0 } 1 (by simp [superSpec])
  have h2 := stepOk hacc { op := .ireturn, useAsA := some 1 } 2 (by simp [superSpec])
  have ha := link_eq h1.linkA
  have hret := link_eq h2.linkA
  rw [effects_next (effect_load (Or.inr h0.op))]
  rcases getField_pair (fieldWord (codeAt m (pc + 1)).immIdx) .ret
      (.slot (m.numLocals + (codeAt m (pc + 1)).dstReg)) (loaded_value fieldWord A ha) rfl
    with ⟨v, rt, hF, hS⟩ | ⟨exc, rt, hF, hS⟩
  · rw [effects_next ((effect_getfield h1.op).trans (congrArg some hS)),
      effects_ret (effect_ireturn h2.op)]
    refine ⟨_, rfl, .of_fused (superEffect_getfieldIreturn hF)
      (.ret ⟨?_, fun _ h => h.elim, ?_, rfl, rfl, rfl⟩)⟩
    all_goals grind
  · rw [effects_deopt ((effect_getfield h1.op).trans (congrArg some hS))]
    refine ⟨_, rfl, .of_fused (superEffect_getfieldIreturn hF)
      (.deopt ⟨?_, fun _ h => h.elim, ?_, rfl, rfl, rfl⟩)⟩
    all_goals grind

/-- The second operand of a length test is the length or a register that no skipped
result goes to. -/
theorem lengthTest_operand {step : PatternStep}
    (h : StepOk (superSpec .aloadArraylengthIf) m pc 2 step)
    (hstep : step = { op := .ifIcmpgt, useAsA := some 1 }) :
    (codeAt m (pc + 2)).bReg = (codeAt m (pc + 2)).aReg ∨
      (codeAt m (pc + 0)).dstReg ≠ (codeAt m (pc + 2)).bReg := by
  subst hstep
  have hreads : stepReads (codeAt m (pc + 2)) =
      [(codeAt m (pc + 2)).aReg, (codeAt m (pc + 2)).bReg] := by
    unfold stepReads
    rw [h.op]
    rfl
  have hunread := h.unread
  unfold readsSkipped at hunread
  dsimp only at hunread
  rw [hreads] at hunread
  simp only [superSpec, range_succ] at hunread
  by_contra hcon
  simp_all

theorem fused_aloadArraylengthIf (hst : Structured m)
    (hacc : Accepted (superSpec .aloadArraylengthIf) m pc live) :
    Fused m fieldWord pc .aloadArraylengthIf 3 := by
  intro A
  have h0 := stepOk hacc { op := .aload } 0 (by simp [superSpec])
  have h1 := stepOk hacc { op := .arraylength, useAsA := some 0 } 1 (by simp [superSpec])
  have h2 := stepOk hacc { op := .ifIcmpgt, useAsA := some 1 } 2 (by simp [superSpec])
  have hlen : pc + 3 ≤ m.code.length := hacc.inside
  have hl0 := h0.local_lt hst (by omega) (.inl rfl)
  have ha := link_eq h1.linkA
  have hcmp := link_eq h2.linkA
  have hother := lengthTest_operand h2 rfl
  have hskip : skippedDsts (superSpec .aloadArraylengthIf) m pc = [(codeAt m (pc + 0)).dstReg] := by
    simp [skippedDsts, superSpec, range_succ]
  have hwrite : writtenDsts (superSpec .aloadArraylengthIf) m pc =
      [(codeAt m (pc + 1)).dstReg] := by
    simp [writtenDsts, superSpec, range_succ, definesDst_arraylength h1.op,
      definesDst_ifIcmp .gt h2.op]
  rw [effects_next (effect_load (Or.inr h0.op))]
  rcases arrayLength_pair (.slot (m.numLocals + (codeAt m (pc + 1)).dstReg))
      (.slot (m.numLocals + (codeAt m (pc + 1)).dstReg)) (loaded_value fieldWord A ha) rfl
    with ⟨v, hF, hS⟩ | ⟨exc, rt, hF, hS⟩
  · rw [effects_next ((effect_arraylength h1.op).trans (congrArg some hS)),
      effects_branch (effect_ifIcmp .gt h2.op)]
    refine ⟨_, rfl, .of_fused (superEffect_arraylengthIf hF)
      (.branch ?_ (related_of_slots rfl rfl rfl ?_ ?_))⟩
    · show cmpHolds .g _ _ = cmpHolds .g _ _
      grind
    all_goals
      simp only [Stale, hskip, hwrite]
      grind
  · rw [effects_deopt ((effect_arraylength h1.op).trans (congrArg some hS))]
    refine ⟨_, rfl, .of_fused (superEffect_arraylengthIf hF)
      (.deopt ⟨?_, fun _ h => h.elim, ?_, rfl, rfl, rfl⟩)⟩
    all_goals grind

/-- A fused body and the instructions of an accepted window leave activations that
differ in stale registers only. -/
theorem fused_spec (fieldWord : Nat → BitVec 32) (hst : Structured m) (s : SuperName)
    (hacc : Accepted (superSpec s) m pc live) (A : Activation) :
    ∃ e, effects (windowAt m fieldWord pc) 0 (superSpec s).pattern.length A = some e ∧
      RelatedExit m.numLocals (Stale (superSpec s) m pc) A
        (superEffect (windowAt m fieldWord pc) s A) e := by
  cases s with
  | iloadIload f => exact fused_iloadIload hst f hacc A
  | aloadGetfield => exact fused_aloadGetfield hst hacc A
  | aloadArraylengthIf => exact fused_aloadArraylengthIf hst hacc A
  | iincGoto => exact fused_iincGoto hacc A
  | aloadGetfieldIreturn => exact fused_aloadGetfieldIreturn hacc A
  | iloadIloadIstore f => exact fused_iloadIloadIstore hst f hacc A
  | iloadIincIstore => exact fused_iloadIincIstore hst hacc A
  | iloadIstore => exact fused_iloadIstore hst hacc A
  | iloadIreturn => exact fused_iloadIreturn hacc A
  | iloadIf t => exact fused_iloadIf hst t hacc A
  | iloadIconstIfIcmp t => exact fused_iloadIconstIfIcmp hst t hacc A

end Families

end B2Compiler.Codegen.Fusion
