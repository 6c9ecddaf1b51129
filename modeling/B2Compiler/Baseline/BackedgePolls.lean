import B2Compiler.Baseline.PlanWellFormed
import B2Compiler.Lib.ClosedWalk

/-!
# Polls on cycles

The builder looks at each backward branch for a poll at its target or right in front of
the branch.  Whether every cycle of the flow graph polls is decided by the steps back
that this leaves open: branches of an instruction to itself, branches that jump past the
poll in front of them, and exceptions.
-/

namespace B2Compiler.Baseline

open Rbc List
open Lib.ClosedWalk
open Relation

/-! ## The flow graph -/

/-- Control goes from `p` to `q`: the instruction completes, or one that raises is covered
by a handler.  `raises` says which instructions raise. -/
def Flow (m : Method) (raises : Nat → Prop) (p q : Nat) : Prop :=
  p < m.code.length ∧ (q ∈ nextPcs m p ∨
      raises p ∧ ∃ h ∈ m.handlers, (h.start ≤ p ∧ p < h.stop) ∧ q = h.handler)

def IsPoll (m : Method) (p : Nat) : Prop := (codeAt m p).op = .safepointPoll

/-- Every cycle of the flow graph has a poll. -/
def CyclesPoll (m : Method) (raises : Nat → Prop) : Prop :=
  ∀ ps, IsCycle (Flow m raises) ps → ∃ p ∈ ps, IsPoll m p

/-- A step from an instruction that is no poll. -/
abbrev Silent (m : Method) (raises : Nat → Prop) : Nat → Nat → Prop :=
  Unmarked (Flow m raises) (IsPoll m)

/-- The steps back that the check says nothing of: to the instruction itself, to a target
without a poll where the poll stands in front of the branch, to a target that is negative
as a number of 32 bits, and to a handler. -/
def Open (m : Method) (raises : Nat → Prop) (p q : Nat) : Prop :=
  q = p ∨ (0 < p ∧ IsPoll m (p - 1)) ∨ 2 ^ 31 ≤ q ∨
    (raises p ∧ ∃ h ∈ m.handlers, (h.start ≤ p ∧ p < h.stop) ∧ q = h.handler)

/-- From the end of such a step no walk without a poll leads to its start. -/
def OpenStepsPoll (m : Method) (raises : Nat → Prop) : Prop :=
  ∀ p q, Silent m raises p q → q ≤ p → Open m raises p q → ¬ReflTransGen (Silent m raises) q p

section Checks

variable {m : Method} {raises : Nat → Prop}

/-- The target of a checked branch that goes back. -/
theorem poll_of_checkTarget {p : Nat} {t : BitVec 32} (h : checkTarget m p t = true)
    (hlt : t.toNat < p) : IsPoll m t.toNat ∨ (0 < p ∧ IsPoll m (p - 1)) ∨ 2 ^ 31 ≤ t.toNat := by
  by_cases hbig : 2 ^ 31 ≤ t.toNat
  · exact Or.inr (Or.inr hbig)
  have hpos : 0 ≤ t.toInt := toInt_nonneg_of_lt (by omega)
  simp only [checkTarget, Bool.or_eq_true, Bool.not_eq_true', Bool.and_eq_false_iff,
    decide_eq_false_iff_not, Bool.and_eq_true, bne_iff_ne, beq_iff_eq] at h
  rcases h with (h | h) | h
  · rcases h with h | h
    · exact absurd hpos h
    · exact absurd hlt h
  · exact Or.inl h
  · exact Or.inr (Or.inl ⟨Nat.pos_of_ne_zero h.1, h.2⟩)

theorem branch_checked (hst : Structured m) (h : checkBackedgePolls m = none) {p q : Nat}
    (hp : p < m.code.length) (hq : q ∈ branchTargets m (codeAt m p)) :
    ∃ t : BitVec 32, t.toNat = q ∧ checkTarget m p t = true := by
  have hmem : (codeAt m p, p) ∈ m.code.zipIdx :=
    mk_mem_zipIdx_iff_getElem?.mpr (codeAt_eq hp)
  have hnone := findSome?_eq_none_iff.mp h (codeAt m p, p) hmem
  dsimp only at hnone
  unfold branchTargets at hq
  dsimp only at hq
  split at hq
  · rename_i hsig
    have hsig' : (info (codeAt m p).op).sig = .branch ∨ (info (codeAt m p).op).sig = .regBranch ∨
        (info (codeAt m p).op).sig = .regRegBranch := by
      simpa [isBranchSig, or_assoc] using hsig
    rw [if_pos hsig'] at hnone
    refine ⟨(codeAt m p).imm, (mem_singleton.mp hq).symm, ?_⟩
    by_contra hc
    rw [if_neg hc] at hnone
    cases hnone
  · split at hq
    · rename_i hother hsig
      have hother' : ¬((info (codeAt m p).op).sig = .branch ∨
          (info (codeAt m p).op).sig = .regBranch ∨
          (info (codeAt m p).op).sig = .regRegBranch) := by
        rw [hsig]
        decide
      rw [if_neg hother', if_pos hsig] at hnone
      have hmsgs := (structure_parts (hst.instruction p hp)).2.2 hsig
      cases hpay : switchPayload m (codeAt m p) with
      | none =>
        rw [hpay] at hq
        cases hq
      | some v =>
        obtain ⟨hshape, -⟩ := switch_clean hpay hmsgs
        rw [hpay] at hq
        obtain ⟨w, hw, rfl⟩ := mem_map.mp hq
        refine ⟨w, rfl, ?_⟩
        obtain ⟨c, hc, -, rfl⟩ := payload_entry hpay
        rw [hc] at hnone
        dsimp only at hnone
        rw [Option.map_eq_none_iff, find?_eq_none] at hnone
        have hword := hnone w (mem_payloadTargets hsig hshape hw)
        simpa using hword
    · cases hq

theorem open_of_retreat (hst : Structured m) (h : checkBackedgePolls m = none) {p q : Nat}
    (hstep : Silent m raises p q) (hle : q ≤ p) : Open m raises p q ∨ IsPoll m q := by
  obtain ⟨-, hp, hflow⟩ := hstep
  rcases Nat.lt_or_eq_of_le hle with hlt | heq
  · rcases hflow with hnext | hexc
    · unfold nextPcs at hnext
      dsimp only at hnext
      rcases mem_append.mp hnext with hfall | hbranch
      · split at hfall
        · rw [mem_singleton] at hfall
          omega
        · cases hfall
      · obtain ⟨t, rfl, hcheck⟩ := branch_checked hst h hp hbranch
        rcases poll_of_checkTarget hcheck hlt with hpoll | hfront | hbig
        · exact Or.inr hpoll
        · exact Or.inl (Or.inr (Or.inl hfront))
        · exact Or.inl (Or.inr (Or.inr (Or.inl hbig)))
    · exact Or.inl (Or.inr (Or.inr (Or.inr hexc)))
  · exact Or.inl (Or.inl heq)

/-- A walk that leaves a poll is no silent walk, unless it does not move. -/
theorem eq_of_silent_poll {p q : Nat} (hpoll : IsPoll m q)
    (h : ReflTransGen (Silent m raises) q p) : q = p := by
  rcases h.cases_head with heq | ⟨x, hstep, -⟩
  · exact heq
  · exact absurd hpoll hstep.1

theorem cyclesPoll_iff (hst : Structured m) (h : checkBackedgePolls m = none) :
    CyclesPoll m raises ↔ OpenStepsPoll m raises := by
  unfold CyclesPoll
  rw [marked_iff]
  constructor
  · intro hcycles p q hstep _ _ hback
    exact hcycles p (TransGen.head' hstep hback)
  intro hopen a hcycle
  obtain ⟨p, q, hstep, hle, hback⟩ := retreat_of_cycle hcycle
  rcases open_of_retreat hst h hstep hle with hop | hpoll
  · exact hopen p q hstep hle hop hback
  · have heq := eq_of_silent_poll hpoll hback
    subst heq
    exact hstep.1 hpoll

end Checks

theorem compilePlan_checked {program : Program} {index : Nat} {set : StencilSet}
    {options : CompileOptions} (hpolls : options.requireBackedgePolls = true) {m : Method}
    (hm : program.methods[index]? = some m) {plan : StencilPlan}
    (h : compilePlan program index set options = .ok plan) :
    (verify m).ok = true ∧ checkBackedgePolls m = none := by
  unfold compilePlan at h
  rw [hm] at h
  dsimp only at h
  split at h
  · rename_i hok
    refine ⟨hok, ?_⟩
    unfold planMethod at h
    dsimp only at h
    split at h
    · cases h
    split at h
    · cases h
    split at h
    · cases h
    · rename_i hchecks
      split at h
      · cases h
      · rename_i hnone
        exact hnone
  · cases h

/-- **Polls of compiled methods.**  In a method that is compiled with the check of its
backward edges every cycle polls exactly when the open steps back do; and then no
execution goes on for ever without a poll. -/
theorem compiled_cyclesPoll_iff (program : Program) (index : Nat) (set : StencilSet)
    (options : CompileOptions) (hpolls : options.requireBackedgePolls = true) (m : Method)
    (hm : program.methods[index]? = some m) (plan : StencilPlan)
    (h : compilePlan program index set options = .ok plan) (raises : Nat → Prop) :
    (CyclesPoll m raises ↔ OpenStepsPoll m raises) ∧
      (CyclesPoll m raises → ∀ run : Nat → Nat, (∀ i, Flow m raises (run i) (run (i + 1))) →
        ∀ n, ∃ k, n ≤ k ∧ IsPoll m (run k)) := by
  obtain ⟨hv, hcheck⟩ := compilePlan_checked hpolls hm h
  constructor
  · by_cases hcode : 0 < m.code.length
    · exact cyclesPoll_iff (accepted hv hcode).1 hcheck
    -- a method without code has no step at all
    have hno : ∀ p q, ¬Silent m raises p q := fun p q hstep =>
      absurd hstep.2.1 (by omega)
    constructor
    · intro _ p q hstep
      exact absurd hstep (hno p q)
    · intro _
      refine marked_iff.mpr fun a hcycle => ?_
      obtain ⟨b, hstep, -⟩ := TransGen.head'_iff.mp hcycle
      exact hno a b hstep
  · intro hcycles run hrun n
    have hfinite : (Set.Iio m.code.length).Finite := Set.finite_Iio _
    exact marked_again hfinite hrun (fun i => (hrun i).1) (marked_iff.mp hcycles) n

/-! ### A loop with a poll and one without -/

/-- Stencils of a poll and of a jump. -/
def loopSet : StencilSet where
  stencils :=
    [{},
      { id := 1, name := "safepoint_poll", pattern := [{ op := .safepointPoll }],
        nominalSize := 9 },
      { id := 2, name := "goto", pattern := [{ op := .goto }], nominalSize := 5,
        patches := [{ kind := .branchRel32, source := .branchTarget }] }]

/-- A poll, and a jump back to it. -/
def pollLoop : Method where
  flags := 8
  code := [⟨.safepointPoll, 0, 0, 0, 0⟩, ⟨.goto, 0, 0, 0, 0⟩]

/-- A jump to itself. -/
def selfLoop : Method where
  flags := 8
  code := [⟨.goto, 0, 0, 0, 0⟩]

theorem loopSet_compiles (m : Method)
    (h : (compilePlan { methods := [m] } 0 loopSet {}).toOption.isSome) :
    ∃ plan, compilePlan { methods := [m] } 0 loopSet {} = .ok plan := by
  cases hplan : compilePlan { methods := [m] } 0 loopSet {} with
  | error e =>
    rw [hplan] at h
    cases h
  | ok plan => exact ⟨plan, rfl⟩

theorem pollLoop_cyclesPoll : ∃ plan,
    compilePlan { methods := [pollLoop] } 0 loopSet {} = .ok plan ∧
      CyclesPoll pollLoop fun _ => False := by
  obtain ⟨plan, hplan⟩ := loopSet_compiles pollLoop (by decide +kernel)
  refine ⟨plan, hplan, (compiled_cyclesPoll_iff _ 0 loopSet {} rfl pollLoop rfl plan hplan
    fun _ => False).1.mpr ?_⟩
  intro p q hstep _ _ hback
  -- the only silent step is the jump, and it ends at the poll
  have hp : p = 1 := by
    have hlt : p < 2 := hstep.2.1
    by_contra hne
    have hzero : p = 0 := by omega
    subst hzero
    exact hstep.1 rfl
  subst hp
  have hq : q = 0 := by
    have hnext : nextPcs pollLoop 1 = [0] := by decide
    rcases hstep.2.2 with hmem | ⟨hraise, -⟩
    · rwa [hnext, mem_singleton] at hmem
    · exact hraise.elim
  subst hq
  have hpoll : IsPoll pollLoop 0 := rfl
  exact absurd (eq_of_silent_poll hpoll hback) (by decide)

/-- The jump to itself compiles, and its cycle has no poll. -/
theorem selfLoop_not_cyclesPoll :
    (∃ plan, compilePlan { methods := [selfLoop] } 0 loopSet {} = .ok plan) ∧
      ¬CyclesPoll selfLoop fun _ => False := by
  refine ⟨loopSet_compiles selfLoop (by decide +kernel), fun hcycles => ?_⟩
  have hflow : Flow selfLoop (fun _ => False) 0 0 := ⟨by decide, Or.inl (by decide)⟩
  have hcycle : IsCycle (Flow selfLoop fun _ => False) [0] :=
    List.IsChain.cons_cons hflow (List.IsChain.singleton 0)
  obtain ⟨p, hp, hpoll⟩ := hcycles [0] hcycle
  rw [mem_singleton.mp hp] at hpoll
  cases hpoll

end B2Compiler.Baseline
