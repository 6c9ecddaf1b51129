import B2Compiler.Ts.FlowAnalysis

/-!
# When registers are defined where they are read

The flow analysis joins by union, so that a verified function reads registers that some
path defines.  That they are defined on every path is the case exactly when the paths to an
instruction agree on what it reads.
-/

namespace B2Compiler.Ts

open Lib

section Paths

variable {fn : Function} {state : Nat → Option DefSet}

variable (hStatic : StaticOk fn) (hState : Analysis fn state)
include hStatic hState

/-- Along a path the state holds what the path has defined; induction on the path, one case
for each kind of edge. -/
theorem Analysis.covers {es : List Edge} {pc : Nat} (hPath : fn.Path es pc) :
    isStart fn pc = true ∧ ∃ s, state pc = some s ∧
      ∀ r, fn.DefinedAlong es r → s.test r = true := by
  have hRegisters := hStatic.registers
  unfold kMaxUsableRegister at hRegisters
  induction hPath with
  | entry =>
    obtain ⟨s, hs, hLe⟩ := hState.entry
    refine ⟨isStart_zero hStatic.code, s, hs, fun r hr => hLe r ?_⟩
    have hParam : r < fn.paramCount := hr.resolve_right (by nofun)
    have hParams := hStatic.params
    rw [DefSet.test_below (by omega)]
    exact decide_eq_true hParam
  | @step es pc t _ _ ht ih =>
    obtain ⟨hStart, s, hs, hDef⟩ := ih
    obtain ⟨hTarget, s', hs', hLe⟩ := hState.next pc s hs t ht
    obtain ⟨op, hOp, hOk⟩ := hStatic.operands pc hStart
    have hWrites : ∀ r ∈ fn.writes pc, r < 256 := by
      intro r hr
      unfold Function.writes at hr
      rw [hOp] at hr
      have hLt := writesOf_lt hOk hr
      omega
    refine ⟨hTarget, s', hs', fun r hr => hLe r ?_⟩
    rw [DefSet.test_foldl_set hWrites, Bool.or_eq_true, decide_eq_true_eq]
    rcases hr with hr | ⟨e, hMem, hr⟩
    · exact Or.inl (hDef r (Or.inl hr))
    · rcases List.mem_cons.mp hMem with rfl | hMem
      · exact Or.inr hr
      · exact Or.inl (hDef r (Or.inr ⟨e, hMem, hr⟩))
  | @raise es pc h _ hMemH hLow hHigh ih =>
    obtain ⟨-, s, hs, hDef⟩ := ih
    obtain ⟨s', hs', hLe⟩ := hState.raise pc s hs h hMemH hLow hHigh
    have hCatch := (hStatic.handlers h hMemH).catchReg
    refine ⟨(hStatic.handlers h hMemH).target, s', hs', fun r hr => hLe r ?_⟩
    rw [DefSet.test_set _ (by omega), Bool.or_eq_true, decide_eq_true_eq]
    rcases hr with hr | ⟨e, hMem, hr⟩
    · exact Or.inl (hDef r (Or.inl hr))
    · rcases List.mem_cons.mp hMem with rfl | hMem
      · exact Or.inr (List.mem_singleton.mp hr)
      · exact Or.inl (hDef r (Or.inr ⟨e, hMem, hr⟩))

theorem Analysis.reads_justified
    {es : List Edge} {pc r : Nat} (hPath : fn.Path es pc) (hr : r ∈ fn.reads pc) :
    ∃ es', fn.Path es' pc ∧ fn.DefinedAlong es' r := by
  obtain ⟨-, s, hs, -⟩ := hState.covers hStatic hPath
  exact (hState.justified pc s hs).2 r (hState.reads pc s hs r hr)

theorem readsDefined_iff : fn.ReadsDefined ↔ fn.PathsAgree := by
  constructor
  · intro h es es' pc _ hPath' r hr _
    exact h es' pc hPath' r hr
  · intro h es pc hPath r hr
    obtain ⟨es', hPath', hDef⟩ := hState.reads_justified hStatic hPath hr
    exact h es' es pc hPath' hPath r hr hDef

end Paths

/-! ## Modules -/

theorem verifyFunction_of_verify {m : Module} {file : String} {ls : List FeedbackLayout}
    (h : verify m file = .ok ls) :
    m.entryIndex < m.functions.length ∧
      ∀ fn ∈ m.functions, ∃ l, verifyFunction ⟨file, m, fn⟩ = .ok l := by
  unfold verify at h
  split at h
  · cases h
  split at h
  · cases h
  rename_i hEntry
  refine ⟨by omega, ?_⟩
  generalize m.functions = fns at h
  induction fns generalizing ls with
  | nil => nofun
  | cons fn fns ih =>
    rw [List.mapM_cons] at h
    cases hHead : verifyFunction ⟨file, m, fn⟩ with
    | error e =>
      rw [hHead] at h
      cases h
    | ok l =>
      rw [hHead] at h
      cases hTail : fns.mapM fun fn => verifyFunction ⟨file, m, fn⟩ with
      | error e =>
        rw [hTail] at h
        cases h
      | ok ls' =>
        intro fn' hMem
        rcases List.mem_cons.mp hMem with rfl | hMem
        · exact ⟨l, hHead⟩
        · exact ih hTail fn' hMem

/-- In a module that verifies, every read is of a register defined on the path taken
exactly when the paths to each instruction agree on the registers it reads. -/
theorem definedness_exact {m : Module} {file : String} {ls : List FeedbackLayout}
    (h : verify m file = .ok ls) :
    (∀ fn ∈ m.functions, fn.ReadsDefined) ↔ ∀ fn ∈ m.functions, fn.PathsAgree := by
  obtain ⟨-, hVerified⟩ := verifyFunction_of_verify h
  constructor
  · intro hReads fn hMem
    obtain ⟨l, hl⟩ := hVerified fn hMem
    obtain ⟨hStatic, state, hState⟩ := Verification.analysis_of_verifyFunction hl
    exact (readsDefined_iff hStatic hState).mp (hReads fn hMem)
  · intro hAgree fn hMem
    obtain ⟨l, hl⟩ := hVerified fn hMem
    obtain ⟨hStatic, state, hState⟩ := Verification.analysis_of_verifyFunction hl
    exact (readsDefined_iff hStatic hState).mpr (hAgree fn hMem)

/-- `0: JmpTrue r0, +2; 1: LoadTrue r1; 2: Return r1` with the parameter `r0`: the jump goes
past the only instruction that defines `r1`. -/
def skippedLoad : Module where
  functions :=
    [{ paramCount := 1, registerCount := 2, code := [0x2004B, 0x106, 0x116] }]

theorem verify_skippedLoad : verify skippedLoad "" =
    .ok [⟨[.branch], [0, kNoFeedbackSlot, kNoFeedbackSlot]⟩] := by
  decide +kernel

theorem definedness_exact_skippedLoad : (∀ fn ∈ skippedLoad.functions, fn.ReadsDefined) ↔
      ∀ fn ∈ skippedLoad.functions, fn.PathsAgree :=
  definedness_exact verify_skippedLoad

/-- The verifier takes the module although `r1` is not defined on the jump. -/
theorem skippedLoad_undefined :
    ¬∀ (m : Module) (file : String) (ls : List FeedbackLayout), verify m file = .ok ls →
      ∀ fn ∈ m.functions, fn.ReadsDefined := by
  intro h
  obtain ⟨fn, hfn⟩ : ∃ fn, fn = skippedLoad.functions.head (by decide) := ⟨_, rfl⟩
  have hReads := h skippedLoad "" _ verify_skippedLoad fn (hfn ▸ List.head_mem _)
  subst hfn
  have hPath : (skippedLoad.functions.head (by decide)).Path [.step 0] 2 :=
    .step .entry (by decide) (by decide)
  rcases hReads _ _ hPath 1 (by decide) with hParam | ⟨e, hMem, hDef⟩
  · exact absurd hParam (by decide)
  · rw [List.mem_singleton.mp hMem] at hDef
    exact absurd hDef (by decide)

end B2Compiler.Ts
