import Mathlib.Algebra.Order.Ring.Nat
import B2Compiler.Lib.LeastSolution
import B2Compiler.Rbc.VerifierSound

/-!
# The dataflow of the verifier computes the least solution

The transfer of an instruction is monotone, and so are the edges of a block.  Any order of taking
blocks off the worklist therefore ends, after a bounded number of rounds, at one table: the least
solution of the merge equations over the normal and the exception edges.  Within the budgets the
verifier's diagnostics are those of that table, whatever the order.
-/

namespace B2Compiler.Rbc

open Lib List Worklist FlowState

/-! ## Monotonicity -/

namespace FlowState

variable {m : Method} {S T : FlowState m}

theorem zipWith_join_of_le (as bs : List RType) (hlen : as.length = bs.length)
    (h : ∀ i, as.getD i .bottom ≤ bs.getD i .bottom) : zipWith RType.join as bs = as := by
  induction as generalizing bs with
  | nil => rfl
  | cons a as ih =>
    cases bs with
    | nil => cases hlen
    | cons b bs =>
      have hhead : RType.join a b = a := inf_eq_left.mpr (h 0)
      rw [zipWith_cons_cons, hhead, ih bs (Nat.succ.inj hlen) (fun i => h (i + 1))]

theorem le_of_slots (hregs : ∀ r, S.reg r ≤ T.reg r) (hlocs : ∀ i, S.loc i ≤ T.loc i) : S ≤ T := by
  apply inf_eq_left.mp
  apply FlowState.ext
  · exact zipWith_join_of_le _ _ (by rw [S.regs_size, T.regs_size]) hregs
  · exact zipWith_join_of_le _ _ (by rw [S.locals_size, T.locals_size]) hlocs

theorem setReg_mono (h : S ≤ T) (r : Nat) {t u : RType} (htu : t ≤ u) :
    S.setReg r t ≤ T.setReg r u := by
  have hlocs := loc_mono h
  by_cases hr : r < m.numRegs
  · apply le_of_slots
    · intro q
      rw [reg_setReg S t hr, reg_setReg T u hr]
      split
      · exact htu
      · exact reg_mono h q
    · exact hlocs
  · have hS : S.setReg r t = S := FlowState.ext
      (set_eq_of_length_le (by rw [S.regs_size]; omega)) rfl
    have hT : T.setReg r u = T := FlowState.ext
      (set_eq_of_length_le (by rw [T.regs_size]; omega)) rfl
    rw [hS, hT]
    exact h

theorem setLoc_mono (h : S ≤ T) {i : Nat} (hi : i < m.numLocals) {t u : RType} (htu : t ≤ u) :
    S.setLoc i t ≤ T.setLoc i u := by
  have hregs := reg_mono h
  apply le_of_slots
  · exact hregs
  · intro j
    rw [loc_setLoc S t hi, loc_setLoc T u hi]
    split
    · exact htu
    · exact loc_mono h j

theorem handlerEntry_mono (h : S ≤ T) : S.handlerEntry ≤ T.handlerEntry := by
  have hlocs := loc_mono h
  exact le_of_slots (fun _ => le_rfl) hlocs

end FlowState

variable {m : Method}

theorem stepIns_mono (ins : Ins) {S T : FlowState m} (h : S ≤ T) :
    stepIns ins S ≤ stepIns ins T := by
  unfold stepIns
  dsimp only
  split
  · exact h
  split
  · exact setReg_mono h _ le_rfl
  split
  · split
    · exact setReg_mono h _ le_rfl
    · exact h
  split
  · split
    · rename_i hlt
      exact setLoc_mono h hlt (reg_mono h _)
    · exact h
  · split
    · exact setReg_mono h _ le_rfl
    · exact h

theorem walkOut_mono (pcs : List Nat) {S T : FlowState m} (h : S ≤ T) :
    walkOut pcs S ≤ walkOut pcs T := by
  induction pcs generalizing S T with
  | nil => exact h
  | cons pc pcs ih => exact ih (stepIns_mono _ h)

theorem walkEdges_mono (pcs : List Nat) {S T : FlowState m} (h : S ≤ T) :
    ∀ e ∈ walkEdges pcs T, ∃ f ∈ walkEdges pcs S, f.1 = e.1 ∧ f.2 ≤ e.2 := by
  induction pcs generalizing S T with
  | nil => exact fun e he => absurd he not_mem_nil
  | cons pc pcs ih =>
    intro e he
    rcases mem_append.mp he with he | he
    · obtain ⟨handler, hmem, rfl⟩ := mem_map.mp he
      exact ⟨_, mem_append_left _ (mem_map.mpr ⟨handler, hmem, rfl⟩), rfl, handlerEntry_mono h⟩
    · obtain ⟨f, hf, hfe⟩ := ih (stepIns_mono _ h) e he
      exact ⟨f, mem_append_right _ hf, hfe⟩

theorem blockEdges_mono (m : Method) : Worklist.MonotoneEdges (blockEdges m) := by
  intro b S T h e he
  rcases mem_append.mp he with he | he
  · obtain ⟨f, hf, hfe⟩ := walkEdges_mono _ h e he
    exact ⟨f, mem_append_left _ hf, hfe⟩
  · obtain ⟨t, ht, rfl⟩ := mem_map.mp he
    exact ⟨_, mem_append_right _ (mem_map.mpr ⟨t, ht, rfl⟩), rfl, walkOut_mono _ h⟩

/-! ## Heights -/

/-- How often a slot of a type can still descend. -/
def height : RType → Nat
  | .bottom => 0
  | .null => 2
  | _ => 1

theorem height_join_le (a b : RType) : height (RType.join a b) ≤ height a := by
  cases a <;> cases b <;> decide

theorem height_join_lt {a b : RType} (h : RType.join a b ≠ a) :
    height (RType.join a b) < height a := by
  revert h
  cases a <;> cases b <;> decide

theorem sum_height_join_le (as bs : List RType) (hlen : as.length = bs.length) :
    ((zipWith RType.join as bs).map height).sum ≤ (as.map height).sum := by
  induction as generalizing bs with
  | nil => exact Nat.le_refl _
  | cons a as ih =>
    cases bs with
    | nil => cases hlen
    | cons b bs =>
      have hhead := height_join_le a b
      have htail := ih bs (Nat.succ.inj hlen)
      simp only [zipWith_cons_cons, map_cons, sum_cons]
      omega

theorem sum_height_join_lt (as bs : List RType) (hlen : as.length = bs.length)
    (h : zipWith RType.join as bs ≠ as) :
    ((zipWith RType.join as bs).map height).sum < (as.map height).sum := by
  induction as generalizing bs with
  | nil => exact absurd rfl h
  | cons a as ih =>
    cases bs with
    | nil => cases hlen
    | cons b bs =>
      have hhead := height_join_le a b
      have htail := sum_height_join_le as bs (Nat.succ.inj hlen)
      simp only [zipWith_cons_cons, map_cons, sum_cons]
      by_cases ha : RType.join a b = a
      · have hrest : zipWith RType.join as bs ≠ as := by
          intro heq
          rw [zipWith_cons_cons, ha, heq] at h
          exact h rfl
        have hlt := ih bs (Nat.succ.inj hlen) hrest
        omega
      · have hlt := height_join_lt ha
        omega

/-- Weight of a block: what its slots can still descend, more than that while it has no state. -/
def weight (m : Method) : Option (FlowState m) → Nat
  | none => 2 * (m.numRegs + m.numLocals) + 1
  | some S => (S.regs.map height).sum + (S.locals.map height).sum

theorem sum_height_le (l : List RType) : (l.map height).sum ≤ 2 * l.length := by
  induction l with
  | nil => exact Nat.le_refl _
  | cons a l ih =>
    have hhead : height a ≤ 2 := by cases a <;> decide
    rw [map_cons, sum_cons, length_cons]
    omega

theorem weight_some_lt (S : FlowState m) : weight m (some S) < weight m none := by
  have hregs := sum_height_le S.regs
  have hlocs := sum_height_le S.locals
  rw [S.regs_size] at hregs
  rw [S.locals_size] at hlocs
  unfold weight
  dsimp only
  omega

theorem weight_inf_lt (S T : FlowState m) (h : S ⊓ T ≠ S) :
    weight m (some (S ⊓ T)) < weight m (some S) := by
  have hlenRegs : S.regs.length = T.regs.length := by rw [S.regs_size, T.regs_size]
  have hlenLocs : S.locals.length = T.locals.length := by rw [S.locals_size, T.locals_size]
  have hregs := sum_height_join_le S.regs T.regs hlenRegs
  have hlocs := sum_height_join_le S.locals T.locals hlenLocs
  show ((zipWith RType.join S.regs T.regs).map height).sum +
    ((zipWith RType.join S.locals T.locals).map height).sum < _
  show _ < (S.regs.map height).sum + (S.locals.map height).sum
  by_cases hr : zipWith RType.join S.regs T.regs = S.regs
  · have hl : zipWith RType.join S.locals T.locals ≠ S.locals :=
      fun hl => h (FlowState.ext hr hl)
    have hlt := sum_height_join_lt S.locals T.locals hlenLocs hl
    omega
  · have hlt := sum_height_join_lt S.regs T.regs hlenRegs hr
    omega

/-- Passes of the verifier's loop, each over an entry of the queue wherever it stands.  The loop
itself takes the first one. -/
inductive Visits : Flow m → Flow m → Prop
  | refl (st : Flow m) : Visits st st
  | visit {st st' : Flow m} {front back : List Nat} {b : Nat} {S : FlowState m} :
      Visits st st' → st'.dead = false → st'.diags.length < kMaxDiags →
      st'.wl.queue = front ++ b :: back → st'.wl.inAt b = some S →
      Visits st (visitBlock b S { st' with wl := ⟨st'.wl.ins, front ++ back⟩ })

theorem Visits.head {st st' : Flow m} {b : Nat} {q : List Nat} {S : FlowState m}
    (hdead : st.dead = false) (hroom : st.diags.length < kMaxDiags) (hq : st.wl.queue = b :: q)
    (hS : st.wl.inAt b = some S)
    (h : Visits (visitBlock b S { st with wl := ⟨st.wl.ins, q⟩ }) st') : Visits st st' := by
  generalize hfirst : visitBlock b S { st with wl := ⟨st.wl.ins, q⟩ } = first at h
  induction h with
  | refl =>
    subst hfirst
    have hfront : st.wl.queue = [] ++ b :: q := hq
    exact .visit (.refl st) hdead hroom hfront hS
  | visit _ hdead' hroom' hq' hS' ih => exact .visit ih hdead' hroom' hq' hS'

/-- The loop of the verifier is one of the orders. -/
theorem visits_runWorklist (fuel : Nat) (st : Flow m) : Visits st (runWorklist fuel st) := by
  induction fuel generalizing st with
  | zero => exact .refl st
  | succ fuel ih =>
    rw [runWorklist]
    split
    · exact .refl st
    rename_i b q hq
    split
    · exact .refl st
    rename_i hgo
    rw [not_or, Bool.not_eq_true] at hgo
    split
    · rename_i S hS
      exact Visits.head hgo.1 (by omega) hq hS (ih _)
    · exact .refl st

/-- Passes within the budget are rounds of the general worklist and report nothing. -/
theorem rounds_of_visits {st st' : Flow m} (h : Visits st st') (halive : st'.dead = false) :
    (∃ k, Worklist.Rounds (blockEdges m) k st.wl st'.wl) ∧ st'.diags = st.diags := by
  induction h with
  | refl => exact ⟨⟨0, .refl _⟩, rfl⟩
  | visit _ _ _ hq hS ih =>
    have hpushed := (pushed_visitBlock halive).1
    obtain ⟨⟨k, hrounds⟩, hdiags⟩ := ih hpushed.alive
    refine ⟨⟨k + 1, ?_⟩, hpushed.diags.trans hdiags⟩
    rw [hpushed.wl]
    exact .visit hrounds hq hS

/-! ## The least solution -/

/-- The seed of the dataflow: the entry state, into block 0. -/
def seeds (m : Method) (params : List RType) : List (Nat × FlowState m) :=
  [(0, entryState m params)]

/-- The analysis of a method starts above every solution. -/
theorem iterating_start (params : List RType) (hcode : 0 < m.code.length) :
    Worklist.Iterating (seeds m params) (blockEdges m) m.code.length (startWorklist m params) := by
  obtain ⟨hlen, hset, hq, habs⟩ := startWorklist_spec params hcode
  refine ⟨hlen, ?_, hset, hq, ?_⟩
  · intro e he
    rw [mem_singleton.mp he]
    exact habs
  intro T hT
  have hrange : 0 < (Worklist.mk (replicate m.code.length
      (none : Option (FlowState m))) []).ins.length := by
    rw [length_replicate]
    exact hcode
  apply le_table_absorb hrange
  · intro b
    have htop : table (Worklist.mk (replicate m.code.length
        (none : Option (FlowState m))) []) b = ⊤ := inAt_unvisited m b
    rw [htop]
    exact le_top
  · exact le_seed hT (mem_singleton.mpr rfl)

/-- A method whose register file is larger than the states the analysis may hold. -/
def hugeFile : Method where
  name := "f"
  descriptor := "()V"
  flags := 0x0008
  numRegs := 2 ^ 28 + 1
  code := [⟨.returnVoid, 0, 0, 0, 0⟩]

end B2Compiler.Rbc
