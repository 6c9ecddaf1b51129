import B2Compiler.Baseline.LiveRegs

/-!
# The liveness analysis against the paths of a method

The iteration settles at its least fixpoint: a register is in the computed set exactly
when a path of recorded reads, definitions and successors reads it before defining it.
Against the paths the tier-0 handlers run this is right up to the gaps of the analysis.
-/

namespace B2Compiler.Baseline

open Rbc List
open Lib.Sweep (setAt solve)

/-! ## Paths -/

/-- The instruction at `p` writes the register.  Whether a quickened call returns a value
is its target's business; `returns` says where one does. -/
def Writes (m : Method) (returns : Nat → Prop) (p r : Nat) : Prop :=
  Overwrites m (codeAt m p) r ∨
    ((info (codeAt m p).op).sig = .callQuick ∧ returns p ∧ (codeAt m p).dstReg = r)

/-- Some path of normal control flow from `p` reads the register before it writes it. -/
inductive ReadFirst (m : Method) (returns : Nat → Prop) (r : Nat) : Nat → Prop where
  | read {p : Nat} (hp : p < m.code.length) (hr : ReadsReg m (codeAt m p) r) :
      ReadFirst m returns r p
  | step {p q : Nat} (hp : p < m.code.length) (hw : ¬Writes m returns p r)
      (hq : q ∈ nextPcs m p) (hrest : ReadFirst m returns r q) : ReadFirst m returns r p

/-- Such a path goes through a gap of the analysis. -/
inductive ReadPastGap (m : Method) (returns : Nat → Prop) (r : Nat) : Nat → Prop where
  | read {p : Nat} (hp : p < m.code.length) (hr : ReadsReg m (codeAt m p) r)
      (hgap : ReadGap (codeAt m p) r) : ReadPastGap m returns r p
  | gap {p q : Nat} (hp : p < m.code.length) (hw : ¬Writes m returns p r)
      (hq : q ∈ nextPcs m p) (hgap : StepGap m r p q) (hrest : ReadFirst m returns r q) :
      ReadPastGap m returns r p
  | step {p q : Nat} (hp : p < m.code.length) (hw : ¬Writes m returns p r)
      (hq : q ∈ nextPcs m p) (hrest : ReadPastGap m returns r q) : ReadPastGap m returns r p

/-- A path of the analysis: its reads, its definitions, its successors. -/
inductive Recorded (m : Method) (r : Nat) : Nat → Prop where
  | read {p : Nat} (hr : r ∈ appendRegReads (codeAt m p)) : Recorded m r p
  | step {p q : Nat} (hdef : ¬(definesDst (codeAt m p) = true ∧ (codeAt m p).dstReg = r))
      (hq : q ∈ succs m p) (hrest : Recorded m r q) : Recorded m r p

section

variable {m : Method} {returns : Nat → Prop} {p r : Nat} {live : List (Finset Nat)}

theorem ReadPastGap.readFirst (h : ReadPastGap m returns r p) : ReadFirst m returns r p := by
  induction h with
  | read hp hr _ => exact .read hp hr
  | gap hp hw hq _ hrest => exact .step hp hw hq hrest
  | step hp hw hq _ ih => exact .step hp hw hq ih

theorem ReadFirst.lt (h : ReadFirst m returns r p) : p < m.code.length := by
  cases h with
  | read hp | step hp => exact hp

/-- Every register the transfer finds is recorded, if those of the successors are. -/
theorem recorded_of_transfer {g : Nat → Finset Nat} (hg : ∀ q, ∀ r ∈ g q, Recorded m r q)
    (h : r ∈ liveTransfer m p g) : Recorded m r p := by
  rw [mem_liveTransfer] at h
  rcases h with hr | ⟨hdef, q, hq, hr⟩
  · exact .read hr
  · exact .step hdef hq (hg q r hr)

theorem recorded_of_live (hlive : computeLiveness m = some live) (h : r ∈ setAt live p) :
    Recorded m r p := by
  have hempty : ∀ q, ∀ r ∈ setAt (replicate m.code.length (∅ : Finset Nat)) q, Recorded m r q := by
    intro q r hr
    rw [setAt, getD_eq_getElem?_getD, getElem?_replicate] at hr
    split at hr <;> simp at hr
  exact Lib.Sweep.solve_least (P := fun q r => Recorded m r q)
    (fun p g hg r hr => recorded_of_transfer hg hr) hempty hlive p r h

theorem mem_addSucc_lt {n t q : Nat} (h : q ∈ addSucc n t) : q < n := by
  unfold addSucc at h
  split at h
  · rw [mem_singleton] at h
    subst h
    exact Nat.lt_of_le_of_lt (Nat.mod_le t (2 ^ 16)) ‹_›
  · cases h

theorem succs_lt {q : Nat} (h : q ∈ succs m p) : q < m.code.length := by
  unfold succs at h
  dsimp only at h
  split at h
  · exact mem_addSucc_lt h
  · rcases mem_append.mp h with h | h <;> exact mem_addSucc_lt h
  · rcases mem_append.mp h with h | h <;> exact mem_addSucc_lt h
  · split at h
    · cases h
    split at h
    · split at h
      · obtain ⟨t, -, h⟩ := mem_flatMap.mp h
        exact mem_addSucc_lt h
      · rcases mem_append.mp h with h | h
        · exact mem_addSucc_lt h
        · obtain ⟨t, -, h⟩ := mem_flatMap.mp h
          exact mem_addSucc_lt h
    · cases h
  · split at h
    · cases h
    · exact mem_addSucc_lt h
  · cases h
  · exact mem_addSucc_lt h

theorem live_of_recorded
    (hfix : ∀ p, p < m.code.length → liveTransfer m p (setAt live) = setAt live p)
    (h : Recorded m r p) (hp : p < m.code.length) : r ∈ setAt live p := by
  induction h with
  | read hr =>
    rw [← hfix _ hp, mem_liveTransfer]
    exact Or.inl hr
  | @step p q hdef hq hrest ih =>
    rw [← hfix _ hp, mem_liveTransfer]
    exact Or.inr ⟨hdef, q, hq, ih (succs_lt hq)⟩

/-- What the analysis finds of a path from `p`, unless the path goes through a gap. -/
theorem found_of_readFirst (hst : Structured m)
    (hfix : ∀ p, p < m.code.length → liveTransfer m p (setAt live) = setAt live p)
    (hlt : r < 2 ^ 16) (h : ReadFirst m returns r p) :
    r ∈ setAt live p ∨ ReadPastGap m returns r p := by
  induction h with
  | @read p hp hr =>
    rcases reads_recorded hr hlt with hmem | hgap
    · left
      rw [← hfix p hp, mem_liveTransfer]
      exact Or.inl hmem
    · exact Or.inr (.read hp hr hgap)
  | @step p q hp hw hq hrest ih =>
    by_cases hgap : StepGap m r p q
    · exact Or.inr (.gap hp hw hq hgap hrest)
    · rcases ih with hmem | hmissed
      · exact Or.inl (live_of_succ hst hfix hp (fun hover => hw (Or.inl hover)) hq hrest.lt
          hgap hmem)
      · exact Or.inr (.step hp hw hq hmissed)

end

/-- `return 7`, through a switch whose only target is its default. -/
def emptySwitch : Method where
  name := "f"
  descriptor := "()I"
  flags := 0x0008
  numRegs := 2
  code := [⟨.iconst, 0, 0, 0, 1⟩, ⟨.iconst, 1, 0, 0, 7⟩, ⟨.lookupswitch, 0, 0, 0, 0⟩,
    ⟨.ireturn, 0, 1, 0, 0⟩]
  cp := [{ kind := .switchTable, ints := [0, 3] }]

end B2Compiler.Baseline
