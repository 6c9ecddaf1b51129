import Mathlib.Data.List.TakeWhile
import B2Compiler.Rbc.Verifier

/-!
# The fixpoint the verifier stops at

Basic blocks are runs of instructions between leaders.  A healthy run of the
worklist, one that neither exhausts a budget nor reports anything, pushes the
edges of a block exactly as the general worklist does, and ends with an empty
queue; the final sweep then judges every instruction of every visited block in
its final state.
-/

namespace B2Compiler.Rbc

open Lib List Nat Worklist Flow

/-! ## Blocks -/

section Blocks

variable {m : Method}

theorem isLeader_iff {pc : Nat} : isLeader m pc = true ↔
    pc = 0 ∨ (∃ q, q < m.code.length ∧ (pc ∈ jumpTargets m (codeAt m q) ∨
      (isTerminator (codeAt m q).op = true ∧ q + 1 = pc))) ∨
      ∃ h, h ∈ m.handlers ∧ h.handler = pc := by
  simp [isLeader, or_assoc]

theorem isLeader_zero : isLeader m 0 = true :=
  isLeader_iff.mpr (Or.inl rfl)

variable {q b : Nat}

theorem isLeader_of_jump {pc : Nat} (hq : q < m.code.length)
    (hmem : pc ∈ jumpTargets m (codeAt m q)) : isLeader m pc = true :=
  isLeader_iff.mpr (Or.inr (Or.inl ⟨q, hq, Or.inl hmem⟩))

theorem isLeader_of_terminator (hq : q < m.code.length)
    (hterm : isTerminator (codeAt m q).op = true) : isLeader m (q + 1) = true :=
  isLeader_iff.mpr (Or.inr (Or.inl ⟨q, hq, Or.inr ⟨hterm, rfl⟩⟩))

theorem isLeader_of_handler {h : ExceptionHandler} (hmem : h ∈ m.handlers) :
    isLeader m h.handler = true :=
  isLeader_iff.mpr (Or.inr (Or.inr ⟨h, hmem, rfl⟩))

theorem blockOf_of_leader {pc : Nat} (h : isLeader m pc = true) : blockOf m pc = pc := by
  cases pc with
  | zero => rfl
  | succ pc => rw [blockOf, if_pos h]

theorem blockOf_succ {pc : Nat} (h : isLeader m (pc + 1) = false) :
    blockOf m (pc + 1) = blockOf m pc := by
  rw [blockOf, if_neg (by rw [h]; decide)]

theorem blockOf_le (pc : Nat) : blockOf m pc ≤ pc := by
  induction pc with
  | zero => exact le_refl 0
  | succ pc ih =>
    rw [blockOf]
    split
    · exact le_refl _
    · omega

/-- No block starts between the start of a block and one of its instructions. -/
theorem not_isLeader_of_blockOf {pc : Nat} (hlow : blockOf m pc < q) (hhigh : q ≤ pc) :
    isLeader m q = false := by
  induction pc with
  | zero => omega
  | succ pc ih =>
    by_cases hlead : isLeader m (pc + 1) = true
    · rw [blockOf_of_leader hlead] at hlow
      omega
    · have hfalse : isLeader m (pc + 1) = false := Bool.eq_false_iff.mpr hlead
      by_cases hq : q = pc + 1
      · rw [hq]
        exact hfalse
      · exact ih (by rw [blockOf_succ hfalse] at hlow; exact hlow) (by omega)

theorem takeWhile_range' (p : Nat → Bool) :
    ∀ (k s : Nat), ∃ j, j ≤ k ∧ (range' s k).takeWhile p = range' s j ∧
      (∀ i, i < j → p (s + i) = true) ∧ (j = k ∨ p (s + j) = false) := by
  intro k
  induction k with
  | zero =>
    intro s
    exact ⟨0, le_refl 0, rfl, fun i hi => absurd hi (not_lt_zero i), Or.inl rfl⟩
  | succ k ih =>
    intro s
    by_cases hp : p s = true
    · obtain ⟨j, hj, heq, hall, hend⟩ := ih (s + 1)
      refine ⟨j + 1, by omega, ?_, ?_, ?_⟩
      · rw [range'_succ, takeWhile_cons_of_pos hp, heq, range'_succ]
      · intro i hi
        cases i with
        | zero => exact hp
        | succ i =>
          have hpi := hall i (by omega)
          rwa [show s + (i + 1) = s + 1 + i by omega]
      · rcases hend with hend | hend
        · exact Or.inl (by omega)
        · exact Or.inr (by rwa [show s + (j + 1) = s + 1 + j by omega])
    · refine ⟨0, by omega, ?_, fun i hi => absurd hi (not_lt_zero i), Or.inr ?_⟩
      · rw [range'_succ, takeWhile_cons_of_neg hp]
        rfl
      · exact Bool.eq_false_iff.mpr hp

/-- A block is a run of instructions up to the next leader or the end. -/
theorem blockPcs_eq (hb : b < m.code.length) :
    ∃ k, 0 < k ∧ b + k ≤ m.code.length ∧ blockPcs m b = range' b k ∧
      (b + k = m.code.length ∨ isLeader m (b + k) = true) := by
  obtain ⟨j, hj, heq, _, hend⟩ :=
    takeWhile_range' (fun pc => !isLeader m pc) (m.code.length - (b + 1)) (b + 1)
  refine ⟨j + 1, by omega, by omega, ?_, ?_⟩
  · rw [blockPcs, heq, range'_succ]
  · rcases hend with hend | hend
    · exact Or.inl (by omega)
    · right
      rw [show b + (j + 1) = b + 1 + j by omega]
      simpa using hend

theorem blockPcs_blockOf {pc : Nat} (hpc : pc < m.code.length) :
    ∃ k, pc < blockOf m pc + k ∧ blockOf m pc + k ≤ m.code.length ∧
      blockPcs m (blockOf m pc) = range' (blockOf m pc) k ∧
      (blockOf m pc + k = m.code.length ∨ isLeader m (blockOf m pc + k) = true) := by
  have hle := blockOf_le (m := m) pc
  obtain ⟨k, hk, hlen, heq, hend⟩ := blockPcs_eq (m := m) (b := blockOf m pc) (by omega)
  refine ⟨k, ?_, hlen, heq, hend⟩
  by_contra hcon
  rcases hend with hend | hend
  · omega
  · have hquiet : isLeader m (blockOf m pc + k) = false :=
      not_isLeader_of_blockOf (by omega : blockOf m pc < blockOf m pc + k) (by omega)
    rw [hquiet] at hend
    cases hend

theorem not_isLeader_of_mem {pc : Nat} (h : pc ∈ blockPcs m b) (hne : pc ≠ b) :
    isLeader m pc = false := by
  rcases mem_cons.mp h with heq | h
  · exact absurd heq hne
  · have hkeep := mem_takeWhile_imp h
    simpa using hkeep

theorem blockLast_eq {k : Nat} (hk : 0 < k) (heq : blockPcs m b = range' b k) :
    blockLast m b = b + k - 1 := by
  unfold blockLast
  rw [heq]
  obtain ⟨j, rfl⟩ : ∃ j, k = j + 1 := ⟨k - 1, by omega⟩
  rw [range'_concat]
  simp

theorem mem_foldl_pushSucc {bs : List Nat} :
    ∀ {acc : List Nat}, b ∈ bs.foldl pushSucc acc ↔ b ∈ acc ∨ b ∈ bs := by
  induction bs with
  | nil =>
    intro acc
    simp
  | cons c bs ih =>
    intro acc
    have hpush : b ∈ pushSucc acc c ↔ b ∈ acc ∨ b = c := by
      unfold pushSucc
      by_cases hlast : acc.getLast? = some c
      · rw [if_pos hlast]
        constructor
        · exact Or.inl
        · rintro (hacc | rfl)
          · exact hacc
          · exact mem_of_getLast? hlast
      · rw [if_neg hlast, mem_append, mem_singleton]
    rw [foldl_cons, ih, hpush, mem_cons, or_assoc]

end Blocks

/-! ## Edges of a block -/

section Edges

variable {m : Method}

/-- The exception edges of one instruction. -/
def exnEdgeList (m : Method) (pc : Nat) (S : FlowState m) : List (Nat × FlowState m) :=
  (m.handlers.filter (fun h => covers m h pc)).map (fun h => (blockOf m h.handler, S.handlerEntry))

def walkEdges : List Nat → FlowState m → List (Nat × FlowState m)
  | [], _ => []
  | pc :: pcs, S => exnEdgeList m pc S ++ walkEdges pcs (stepIns (codeAt m pc) S)

/-- The state behind a run of instructions. -/
def walkOut (pcs : List Nat) (S : FlowState m) : FlowState m :=
  pcs.foldl (fun S pc => stepIns (codeAt m pc) S) S

def blockEdges (m : Method) (b : Nat) (S : FlowState m) : List (Nat × FlowState m) :=
  walkEdges (blockPcs m b) S ++
    (succBlocks m (blockLast m b)).map (fun t => (t, walkOut (blockPcs m b) S))

/-- The state in front of the `k`-th instruction of a block. -/
def flowTo (b : Nat) (S : FlowState m) : Nat → FlowState m
  | 0 => S
  | k + 1 => stepIns (codeAt m (b + k)) (flowTo b S k)

theorem flowTo_step (b : Nat) (S : FlowState m) (k : Nat) :
    flowTo b S (k + 1) = flowTo (b + 1) (stepIns (codeAt m b) S) k := by
  induction k with
  | zero => rfl
  | succ k ih =>
    have hshift : b + (k + 1) = b + 1 + k := by omega
    calc flowTo b S (k + 1 + 1) = stepIns (codeAt m (b + (k + 1))) (flowTo b S (k + 1)) := rfl
      _ = stepIns (codeAt m (b + 1 + k)) (flowTo (b + 1) (stepIns (codeAt m b) S) k) := by
          rw [ih, hshift]
      _ = flowTo (b + 1) (stepIns (codeAt m b) S) (k + 1) := rfl

theorem walkOut_range' (k : Nat) :
    ∀ (b : Nat) (S : FlowState m), walkOut (range' b k) S = flowTo b S k := by
  induction k with
  | zero => exact fun _ _ => rfl
  | succ k ih =>
    intro b S
    rw [flowTo_step, ← ih, range'_succ]
    rfl

theorem mem_walkEdges_range' (k : Nat) :
    ∀ (b : Nat) (S : FlowState m) (i : Nat), i < k → ∀ e ∈ exnEdgeList m (b + i) (flowTo b S i),
      e ∈ walkEdges (range' b k) S := by
  induction k with
  | zero => exact fun _ _ i hi => absurd hi (not_lt_zero i)
  | succ k ih =>
    intro b S i hi e he
    rw [range'_succ, walkEdges]
    cases i with
    | zero => exact mem_append_left _ he
    | succ i =>
      apply mem_append_right
      rw [flowTo_step, show b + (i + 1) = b + 1 + i by omega] at he
      exact ih (b + 1) (stepIns (codeAt m b) S) i (by omega) e he

theorem covers_iff {h : ExceptionHandler} {pc : Nat} : covers m h pc = true ↔
    h.start < h.stop ∧ h.stop ≤ m.code.length ∧ h.handler < m.code.length ∧
      h.start ≤ pc ∧ pc < h.stop := by
  simp [covers, and_assoc]

theorem switchTargets_lt {ins : Ins} {pc : Nat} (h : pc ∈ switchTargets m ins) :
    pc < m.code.length := by
  unfold switchTargets at h
  split at h
  · cases h
  split at h
  · obtain ⟨w, _, hw⟩ := mem_filterMap.mp h
    unfold targetPc at hw
    split at hw
    · cases hw
    · cases hw
      omega
  · cases h

theorem jumpTargets_lt {ins : Ins} {pc : Nat} (h : pc ∈ jumpTargets m ins) :
    pc < m.code.length := by
  unfold jumpTargets at h
  rcases mem_append.mp h with h | h
  · split at h
    · rename_i hbranch
      rw [mem_singleton] at h
      omega
    · cases h
  · split at h
    · exact switchTargets_lt h
    · cases h

theorem succBlocks_lt {last b : Nat} (h : b ∈ succBlocks m last) : b < m.code.length := by
  unfold succBlocks at h
  rcases mem_foldl_pushSucc.mp h with h | h
  · cases h
  obtain ⟨pc, hpc, rfl⟩ := mem_map.mp h
  have hle := blockOf_le (m := m) pc
  rcases mem_append.mp hpc with hpc | hpc
  · split at hpc
    · rename_i hfall
      rw [mem_singleton] at hpc
      omega
    · cases hpc
  · have hlt := jumpTargets_lt hpc
    omega

theorem walkEdges_lt (pcs : List Nat) :
    ∀ (S : FlowState m), ∀ e ∈ walkEdges pcs S, e.1 < m.code.length := by
  induction pcs with
  | nil => exact fun _ e he => absurd he not_mem_nil
  | cons pc pcs ih =>
    intro S e he
    rcases mem_append.mp he with he | he
    · obtain ⟨h, hmem, rfl⟩ := mem_map.mp he
      have hcov := covers_iff.mp (mem_filter.mp hmem).2
      have hle := blockOf_le (m := m) h.handler
      show blockOf m h.handler < _
      omega
    · exact ih _ e he

theorem blockEdges_lt {b : Nat} {S : FlowState m} :
    ∀ e ∈ blockEdges m b S, e.1 < m.code.length := by
  intro e he
  rcases mem_append.mp he with he | he
  · exact walkEdges_lt _ _ e he
  · obtain ⟨t, ht, rfl⟩ := mem_map.mp he
    exact succBlocks_lt ht

end Edges

/-! ## Runs within the budget -/

section Budget

variable {m : Method}

theorem addDiag_ne_nil (ds : List VerifyDiag) (d : VerifyDiag) : addDiag ds d ≠ [] := by
  unfold addDiag
  split
  · rename_i hfull
    intro hnil
    rw [hnil] at hfull
    exact absurd hfull (by decide)
  · simp

theorem addDiags_eq_nil {new : List VerifyDiag} :
    ∀ {ds : List VerifyDiag}, addDiags ds new = [] → ds = [] ∧ new = [] := by
  induction new with
  | nil => exact fun h => ⟨h, rfl⟩
  | cons d new ih =>
    intro ds h
    exact absurd (ih h).1 (addDiag_ne_nil ds d)

/-- `st'` is `st` with some edges pushed, and neither gave up. -/
structure Pushed (st st' : Flow m) (es : List (Nat × FlowState m)) : Prop where
  alive : st.dead = false
  wl : st'.wl = st.wl.absorbAll es
  diags : st'.diags = st.diags
  ops : st.ops ≤ st'.ops

theorem Pushed.trans {st st' st'' : Flow m} {es es' : List (Nat × FlowState m)}
    (h : Pushed st st' es) (h' : Pushed st' st'' es') : Pushed st st'' (es ++ es') where
  alive := h.alive
  wl := by rw [h'.wl, h.wl, absorbAll_append]
  diags := h'.diags.trans h.diags
  ops := h.ops.trans h'.ops

namespace Flow

theorem alive_of_tick {k : Nat} {st : Flow m} (h : (st.tick k).dead = false) :
    st.dead = false ∧ st.tick k = { st with ops := st.ops + k } ∧ st.ops + k ≤ kOpBudget := by
  unfold tick at h ⊢
  dsimp only at h ⊢
  split at h
  · cases h
  · rename_i hbudget
    rw [if_neg hbudget]
    refine ⟨h, rfl, ?_⟩
    by_contra hcon
    exact hbudget ⟨by omega, h⟩

theorem pushed_tick {k : Nat} {st : Flow m} (h : (st.tick k).dead = false) :
    Pushed st (st.tick k) [] := by
  obtain ⟨halive, heq, _⟩ := alive_of_tick h
  rw [heq]
  exact ⟨halive, rfl, rfl, le_add_right _ _⟩

/-- A push within the budgets is the push of the general worklist. -/
theorem pushed_flowInto {st st' : Flow m} {t : Nat} {e : FlowState m} {ok : Bool}
    (h : st.flowInto t e = (st', ok)) (hst : st'.dead = false) :
    ok = true ∧ Pushed st st' [(t, e)] := by
  unfold flowInto at h
  split at h
  · dsimp only at h
    split at h
    · cases h
      cases hst
    · cases h
      exact ⟨rfl, hst, rfl, rfl, le_refl _⟩
  · cases h
    have hticked : (st.tick (m.numRegs + m.numLocals)).dead = false := hst
    have hpushed := pushed_tick hticked
    exact ⟨rfl, hpushed.alive, rfl, hpushed.diags, hpushed.ops⟩

/-- An edge and those behind it. -/
theorem pushed_edge {st st' st'' : Flow m} {t : Nat} {e : FlowState m}
    {es : List (Nat × FlowState m)} (h : (st.tick 1).flowInto t e = (st', true))
    (hrest : Pushed st' st'' es) : Pushed st st'' ((t, e) :: es) := by
  obtain ⟨_, hpush⟩ := pushed_flowInto h hrest.alive
  exact (pushed_tick hpush.alive).trans (hpush.trans hrest)

end Flow

theorem pushed_exnEdges {pc : Nat} {S : FlowState m} {hs : List ExceptionHandler} :
    ∀ {st : Flow m}, (exnEdges pc S hs st).dead = false →
      Pushed st (exnEdges pc S hs st) ((hs.filter (fun h => covers m h pc)).map
        (fun h => (blockOf m h.handler, S.handlerEntry))) := by
  induction hs with
  | nil => exact fun h => ⟨h, rfl, rfl, le_refl _⟩
  | cons h hs ih =>
    intro st hst
    rw [exnEdges] at hst ⊢
    by_cases hcov : covers m h pc = true
    · rw [if_pos hcov] at hst ⊢
      rw [filter_cons, if_pos hcov, map_cons]
      split at hst
      · rename_i st' hinto
        exact pushed_edge hinto (ih hst)
      · rename_i st' hinto
        cases (pushed_flowInto hinto hst).1
    · rw [if_neg hcov] at hst ⊢
      rw [filter_cons, if_neg hcov]
      have hrest := ih hst
      exact (pushed_tick hrest.alive).trans hrest

theorem pushed_walkBlock {pcs : List Nat} :
    ∀ {S : FlowState m} {st : Flow m}, (walkBlock pcs S st).2.dead = false →
      (walkBlock pcs S st).1 = walkOut pcs S ∧
        Pushed st (walkBlock pcs S st).2 (walkEdges pcs S) := by
  induction pcs with
  | nil => exact fun h => ⟨rfl, h, rfl, rfl, le_refl _⟩
  | cons pc pcs ih =>
    intro S st hst
    rw [walkBlock] at hst ⊢
    by_cases hdead : st.dead = true
    · rw [if_pos hdead] at hst
      exact absurd hst (by rw [hdead]; decide)
    rw [if_neg hdead] at hst ⊢
    by_cases hdead' : (exnEdges pc S m.handlers (st.tick 1)).dead = true
    · rw [if_pos hdead'] at hst
      exact absurd hst (by rw [hdead']; decide)
    · rw [if_neg hdead'] at hst ⊢
      obtain ⟨hout, hrest⟩ := ih hst
      have hexn := pushed_exnEdges hrest.alive
      have htick := pushed_tick hexn.alive
      exact ⟨hout, htick.trans (hexn.trans hrest)⟩

theorem pushed_succEdges {S : FlowState m} {bs : List Nat} :
    ∀ {st : Flow m}, (succEdges S bs st).dead = false →
      Pushed st (succEdges S bs st) (bs.map (fun t => (t, S))) := by
  induction bs with
  | nil => exact fun h => ⟨h, rfl, rfl, le_refl _⟩
  | cons b bs ih =>
    intro st hst
    rw [succEdges] at hst ⊢
    split at hst
    · rename_i st' hinto
      exact pushed_edge hinto (ih hst)
    · rename_i st' hinto
      cases (pushed_flowInto hinto hst).1

variable {b : Nat}

theorem pushed_visitBlock {S : FlowState m} {st : Flow m} (h : (visitBlock b S st).dead = false) :
    Pushed st (visitBlock b S st) (blockEdges m b S) ∧
      st.ops + 1 ≤ (visitBlock b S st).ops ∧ st.ops + 1 ≤ kOpBudget := by
  unfold visitBlock at h ⊢
  dsimp only at h ⊢
  by_cases hdead : (walkBlock (blockPcs m b) S (st.tick 1)).2.dead = true
  · rw [if_pos hdead] at h
    exact absurd h (by rw [hdead]; decide)
  rw [if_neg hdead] at h ⊢
  have hsucc := pushed_succEdges h
  obtain ⟨hout, hwalk⟩ := pushed_walkBlock hsucc.alive
  obtain ⟨_, htick, hbudget⟩ := alive_of_tick hwalk.alive
  have hall := (pushed_tick hwalk.alive).trans (hwalk.trans hsucc)
  rw [hout] at hall ⊢
  refine ⟨hall, ?_, hbudget⟩
  have hops := (hwalk.trans hsucc).ops
  have hcount : (st.tick 1).ops = st.ops + 1 := by rw [htick]
  rw [hout] at hops
  omega

/-- The analysis while it runs: every edge of a settled block is absorbed, and
the blocks in the queue have a state. -/
structure Running (st : Flow m) : Prop where
  length_eq : st.wl.ins.length = m.code.length
  settled : Worklist.Settled (blockEdges m) st.wl
  queued : ∀ b ∈ st.wl.queue, ∃ S, st.wl.inAt b = some S

/-- Visiting an entry of the queue, wherever it stands, within the budget. -/
theorem Running.visit {st : Flow m} {q : List Nat} {S : FlowState m} (hrun : Running st)
    (hq : ∀ c ∈ st.wl.queue, c = b ∨ c ∈ q) (hsub : ∀ c ∈ q, c ∈ st.wl.queue)
    (hS : st.wl.inAt b = some S)
    (h : (visitBlock b S { st with wl := ⟨st.wl.ins, q⟩ }).dead = false) :
    Running (visitBlock b S { st with wl := ⟨st.wl.ins, q⟩ }) := by
  have hwl := (pushed_visitBlock h).1.wl
  have hrange : ∀ e ∈ blockEdges m b S, e.1 < st.wl.ins.length := fun e he => by
    rw [hrun.length_eq]
    exact blockEdges_lt e he
  refine ⟨?_, ?_, ?_⟩
  · rw [hwl, (absorbAll_spec (w := ⟨st.wl.ins, q⟩) hrange).1.length_eq]
    exact hrun.length_eq
  · rw [hwl]
    exact hrun.settled.visit hq hS hrange
  · rw [hwl]
    exact queued_absorbAll hrange (fun c hc => hrun.queued c (hsub c hc))

/-- The seeded states only descend while the loop runs. -/
theorem visit_descends {st : Flow m} {q : List Nat} {S : FlowState m} (hrun : Running st)
    (h : (visitBlock b S { st with wl := ⟨st.wl.ins, q⟩ }).dead = false) {t : Nat} {e : FlowState m}
    (habs : Worklist.Absorbs st.wl t e) :
    Worklist.Absorbs (visitBlock b S { st with wl := ⟨st.wl.ins, q⟩ }).wl t e := by
  have hwl := (pushed_visitBlock h).1.wl
  have hrange : ∀ e ∈ blockEdges m b S, e.1 < st.wl.ins.length := fun e he => by
    rw [hrun.length_eq]
    exact blockEdges_lt e he
  have habs' : Worklist.Absorbs (Worklist.mk st.wl.ins q) t e := habs
  rw [hwl]
  exact habs'.descend (absorbAll_spec (w := ⟨st.wl.ins, q⟩) hrange).1

/-- A loop that did not give up was alive all along and reported nothing. -/
theorem alive_of_runWorklist (fuel : Nat) : ∀ {st : Flow m}, (runWorklist fuel st).dead = false →
      st.dead = false ∧ (runWorklist fuel st).diags = st.diags := by
  induction fuel with
  | zero => exact fun h => ⟨h, rfl⟩
  | succ fuel ih =>
    intro st h
    rw [runWorklist] at h ⊢
    split at h
    · exact ⟨h, rfl⟩
    split at h
    · rename_i hstop
      rw [if_pos hstop]
      exact ⟨h, rfl⟩
    rename_i hgo
    rw [if_neg hgo]
    split at h
    · obtain ⟨hvisit, hdiags⟩ := ih h
      have hpushed := (pushed_visitBlock hvisit).1
      exact ⟨hpushed.alive, hdiags.trans hpushed.diags⟩
    · exact ⟨h, rfl⟩

/-- **The loop.**  A run within the budget, with the whole budget as fuel and room for
diagnostics, drains the queue. -/
theorem runWorklist_spec (fuel : Nat) :
    ∀ {st : Flow m}, Running st → 0 < fuel → kOpBudget < fuel + st.ops →
      st.diags.length < kMaxDiags → (runWorklist fuel st).dead = false →
      Running (runWorklist fuel st) ∧ (runWorklist fuel st).wl.queue = [] ∧
        ∀ t e, Worklist.Absorbs st.wl t e → Worklist.Absorbs (runWorklist fuel st).wl t e := by
  induction fuel with
  | zero => exact fun _ h => absurd h (lt_irrefl 0)
  | succ fuel ih =>
    intro st hrun _ hfuel hroom h
    rw [runWorklist] at h ⊢
    cases hq : st.wl.queue with
    | nil => exact ⟨hrun, hq, fun _ _ habs => habs⟩
    | cons b q =>
      rw [hq] at h
      dsimp only at h ⊢
      by_cases hstop : st.dead = true ∨ st.diags.length ≥ kMaxDiags
      · rw [if_pos hstop] at h
        rcases hstop with hdead | hfull
        · exact absurd h (by rw [hdead]; decide)
        · omega
      · rw [if_neg hstop] at h ⊢
        obtain ⟨S, hS⟩ := hrun.queued b (by rw [hq]; exact mem_cons_self)
        rw [hS] at h ⊢
        dsimp only at h ⊢
        have hvisit := (alive_of_runWorklist fuel h).1
        -- a visit leaves budget behind it, so fuel is left too
        obtain ⟨hpushed, hops, hbudget⟩ := pushed_visitBlock hvisit
        dsimp only at hops hbudget
        have hnext := hrun.visit (q := q) (fun c hc => by rw [hq] at hc; exact mem_cons.mp hc)
          (fun c hc => by rw [hq]; exact mem_cons_of_mem b hc) hS hvisit
        have hroom' : (visitBlock b S { st with wl := ⟨st.wl.ins, q⟩ }).diags.length <
            kMaxDiags := by
          rw [hpushed.diags]
          exact hroom
        obtain ⟨hrun', hempty, hkeep⟩ := ih hnext (by omega) (by omega) hroom' h
        exact ⟨hrun', hempty, fun t e habs => hkeep t e (visit_descends hrun hvisit habs)⟩

end Budget

/-! ## An abandoned analysis is reported -/

section Reports

variable {m : Method}

namespace Flow

/-- A budget that ran out left a diagnostic. -/
def Reported (st : Flow m) : Prop :=
  st.dead = true → st.diags ≠ []

theorem reported_abandon (st : Flow m) (msg : String) : (st.abandon msg).Reported :=
  fun _ => addDiag_ne_nil _ _

theorem Reported.tick {st : Flow m} (h : st.Reported) (k : Nat) : (st.tick k).Reported := by
  unfold Flow.tick
  dsimp only
  split
  · exact reported_abandon _ _
  · exact h

theorem Reported.flowInto {st : Flow m} (h : st.Reported) (t : Nat) (e : FlowState m) :
    (st.flowInto t e).1.Reported := by
  unfold Flow.flowInto
  split
  · dsimp only
    split
    · exact reported_abandon _ _
    · exact h
  · exact h.tick _

end Flow

theorem reported_exnEdges {pc : Nat} {S : FlowState m} {hs : List ExceptionHandler} :
    ∀ {st : Flow m}, st.Reported → (exnEdges pc S hs st).Reported := by
  induction hs with
  | nil => exact fun h => h
  | cons h hs ih =>
    intro st hst
    rw [exnEdges]
    split
    · have hinto := (hst.tick 1).flowInto (blockOf m h.handler) S.handlerEntry
      split
      · rename_i heq
        rw [heq] at hinto
        exact ih hinto
      · rename_i heq
        rw [heq] at hinto
        exact hinto
    · exact ih (hst.tick 1)

theorem reported_walkBlock {pcs : List Nat} :
    ∀ {S : FlowState m} {st : Flow m}, st.Reported → (walkBlock pcs S st).2.Reported := by
  induction pcs with
  | nil => exact fun h => h
  | cons pc pcs ih =>
    intro S st hst
    rw [walkBlock]
    split
    · exact hst
    · dsimp only
      split
      · exact reported_exnEdges (hst.tick 1)
      · exact ih (reported_exnEdges (hst.tick 1))

theorem reported_succEdges {S : FlowState m} {bs : List Nat} :
    ∀ {st : Flow m}, st.Reported → (succEdges S bs st).Reported := by
  induction bs with
  | nil => exact fun h => h
  | cons b bs ih =>
    intro st hst
    rw [succEdges]
    have hinto := (hst.tick 1).flowInto b S
    split
    · rename_i heq
      rw [heq] at hinto
      exact ih hinto
    · rename_i heq
      rw [heq] at hinto
      exact hinto

theorem reported_visitBlock {b : Nat} {S : FlowState m} {st : Flow m} (h : st.Reported) :
    (visitBlock b S st).Reported := by
  unfold visitBlock
  dsimp only
  have hwalk : (walkBlock (blockPcs m b) S (st.tick 1)).2.Reported :=
    reported_walkBlock (h.tick 1)
  split
  · exact hwalk
  · exact reported_succEdges hwalk

theorem reported_runWorklist (fuel : Nat) :
    ∀ {st : Flow m}, st.Reported → (runWorklist fuel st).Reported := by
  induction fuel with
  | zero => exact fun h => h
  | succ fuel ih =>
    intro st hst
    rw [runWorklist]
    split
    · exact hst
    · split
      · exact hst
      · split
        · exact ih (reported_visitBlock hst)
        · exact hst

theorem reported_record {sw : Sweep m} (h : sw.flow.Reported) (i pc : Nat) (t : RType) :
    (sw.record i pc t).flow.Reported := by
  unfold Sweep.record
  split
  · exact h
  · dsimp only
    split
    · exact h
    · exact reported_abandon _ _

theorem reported_recordEntry {sw : Sweep m} (h : sw.flow.Reported) (pc : Nat) (S : FlowState m)
    (n : Nat) : (sw.recordEntry pc S n).flow.Reported := by
  induction n with
  | zero => exact h
  | succ n ih =>
    rw [Sweep.recordEntry]
    split
    · exact ih
    · exact reported_record ih n pc _

theorem reported_sweepBlock {ret : RetScan} {pcs : List Nat} :
    ∀ {S : FlowState m} {sw : Sweep m}, sw.flow.Reported →
      (sweepBlock ret pcs S sw).flow.Reported := by
  induction pcs with
  | nil => exact fun h => h
  | cons pc pcs ih =>
    intro S sw h
    rw [sweepBlock]
    split
    · exact h
    dsimp only
    split
    · exact h.tick 1
    apply ih
    have hchecked : ∀ new, (Flow.Reported
        { sw.flow.tick 1 with diags := addDiags (sw.flow.tick 1).diags new }) :=
      fun new hdead hnil => h.tick 1 hdead (addDiags_eq_nil hnil).1
    split
    · exact reported_record (hchecked _) _ _ _
    · exact hchecked _

theorem reported_sweepBlocks {ret : RetScan} {bs : List Nat} :
    ∀ {sw : Sweep m}, sw.flow.Reported → (sweepBlocks ret bs sw).flow.Reported := by
  induction bs with
  | nil => exact fun h => h
  | cons b bs ih =>
    intro sw h
    rw [sweepBlocks]
    split
    · exact h
    split
    · exact ih h
    rename_i S _
    dsimp only
    have hentry : (if m.handlers = [] then sw
        else sw.recordEntry b S m.numLocals).flow.Reported := by
      split
      · exact h
      · exact reported_recordEntry h b S _
    generalize (if m.handlers = [] then sw
      else sw.recordEntry b S m.numLocals) = sw' at hentry ⊢
    split
    · exact hentry
    · exact ih (reported_sweepBlock hentry)

end Reports

/-- The in-states an accepted method was judged with: the entry and every edge
are absorbed, and every instruction of a visited block passed its check. -/
structure Fixpoint (m : Method) (ret : RetScan) (params : List RType) where
  wl : Worklist (FlowState m)
  entry : Worklist.Absorbs wl 0 (entryState m params)
  closed : ∀ b S, wl.inAt b = some S → ∀ e ∈ blockEdges m b S, Worklist.Absorbs wl e.1 e.2
  checked : ∀ b S, wl.inAt b = some S → b < m.code.length → isLeader m b = true →
    ∀ k, blockPcs m b = range' b k →
      ∀ i, i < k → checkIns ret (b + i) (codeAt m (b + i)) (flowTo b S i) = []

/-- The worklist with the entry state in block 0. -/
def startWorklist (m : Method) (params : List RType) : Worklist (FlowState m) :=
  (Worklist.mk (replicate m.code.length none) []).absorb 0 (entryState m params)

theorem inAt_unvisited (m : Method) (b : Nat) : (Worklist.mk (replicate m.code.length
    (none : Option (FlowState m))) []).inAt b = none := by
  unfold inAt
  rw [getElem?_replicate]
  split <;> rfl

/-- Block 0 is the only visited block, and it is queued. -/
theorem startWorklist_spec {m : Method} (params : List RType) (hcode : 0 < m.code.length) :
    (startWorklist m params).ins.length = m.code.length ∧
      Worklist.Settled (blockEdges m) (startWorklist m params) ∧
      (∀ b ∈ (startWorklist m params).queue, ∃ S, (startWorklist m params).inAt b = some S) ∧
      Worklist.Absorbs (startWorklist m params) 0 (entryState m params) := by
  have hlen : 0 < (Worklist.mk (replicate m.code.length
      (none : Option (FlowState m))) []).ins.length := by
    rw [length_replicate]
    exact hcode
  have hdesc := absorb_descends (entryState m params) hlen
  refine ⟨?_, ?_, ?_, absorb_absorbs _ hlen⟩
  · unfold startWorklist
    rw [hdesc.length_eq, length_replicate]
  · intro b S hS hb
    obtain ⟨_, hsame⟩ := hdesc.settled b hb
    unfold startWorklist at hS
    rw [hsame, inAt_unvisited m b] at hS
    cases hS
  · exact queued_absorb hlen (fun b hb => absurd hb not_mem_nil)

/-- The seeded analysis: block 0 holds the entry state and is queued. -/
theorem seededFlow_spec {m : Method} {diags : List VerifyDiag} {params : List RType}
    {st : Flow m} {ok : Bool} (hcode : 0 < m.code.length)
    (h : seededFlow m diags params = (st, ok)) :
    (ok = false ∧ st.diags ≠ []) ∨
      (ok = true ∧ st.diags = diags ∧ st.dead = false ∧ st.ops = 0 ∧ Running st ∧
        st.wl = startWorklist m params) := by
  unfold seededFlow flowInto at h
  dsimp only at h
  rw [inAt_unvisited m 0] at h
  dsimp only at h
  split at h
  · cases h
    exact Or.inl ⟨rfl, addDiag_ne_nil _ _⟩
  · cases h
    obtain ⟨hlen, hset, hq, _⟩ := startWorklist_spec params hcode
    exact Or.inr ⟨rfl, rfl, rfl, rfl, ⟨hlen, hset, hq⟩, rfl⟩

end B2Compiler.Rbc
