import B2Compiler.Passes.BlockFlow
import B2Compiler.Rbc.ProtectedRanges

/-!
# The type analyses of the builder and of the verifier agree

The verifier's final states solve its equations, so they bound what the builder's worklist
pushes: at every turn the slots of a visited block fit the verifier's state in front of its
first instruction.  When the loop ends within the budget every block that is reachable over
normal edges is visited, and the slots written down for its instructions fit.
-/

namespace B2Compiler.Passes.Builder

open Lib List
open Lib.Fuel
open Relation
open Rbc hiding isBranchSig canFallThrough isTerminator isLeader blockOf
  switchTargets cpAt blockPcs resultType
open RType (Fits)

/-- The verifier accepts the method, the builder's scan passes, and the results of the
invokes are read alike. -/
structure Taken (m : Method) : Prop where
  accepted : (verify m).ok = true
  code : 0 < m.code.length
  short : m.code.length < 2 ^ 31
  scope : ∀ pc, pc < m.code.length → scopeMsgs (codeAt m pc).op = []
  read : ∀ pc, pc < m.code.length → readsResult m (codeAt m pc) = true

variable {m : Method}

/-- A scan without diagnostics has looked at every instruction, within the budget. -/
theorem scan_spec {inlined : Bool} {nodeCount : Nat} (h : scanStructure m inlined nodeCount = []) :
    0 < m.code.length ∧ m.code.length ≤ kBuildBudget ∧
      ∀ pc, pc < m.code.length → scopeMsgs (codeAt m pc).op = [] := by
  unfold scanStructure at h
  split at h
  · cases h
  split at h
  · cases h
  split at h
  · cases h
  rename_i hEmpty
  split at h
  · cases h
  split at h
  · cases h
  have hCode : 0 < m.code.length := length_pos_iff.mpr (by simpa using hEmpty)
  have hEach := flatMap_eq_nil_iff.mp (append_eq_nil_iff.mp h).1
  have hParts : ∀ pc, pc < m.code.length → pc + 1 ≤ kBuildBudget ∧
      scopeMsgs (codeAt m pc).op = [] := by
    intro pc hpc
    obtain ⟨hBudget, hMsgs⟩ := append_eq_nil_iff.mp (hEach pc (mem_range.mpr hpc))
    constructor
    · by_contra hOver
      rw [if_pos (by omega)] at hBudget
      cases hBudget
    · exact (append_eq_nil_iff.mp (map_eq_nil_iff.mp hMsgs)).2
  refine ⟨hCode, ?_, fun pc hpc => (hParts pc hpc).2⟩
  have hLast := (hParts (m.code.length - 1) (by omega)).1
  omega

theorem taken_of_scan {inlined : Bool} {nodeCount : Nat} (hAccept : (verify m).ok = true)
    (hScan : scanStructure m inlined nodeCount = [])
    (hRead : ∀ ins ∈ m.code, readsResult m ins = true) : Taken m := by
  obtain ⟨hCode, hBudget, hScope⟩ := scan_spec hScan
  refine ⟨hAccept, hCode, by unfold kBuildBudget at hBudget; omega, hScope, fun pc hpc => ?_⟩
  exact hRead _ (mem_of_getElem? (codeAt_eq hpc))

/-! ## Slots the verifier supports -/

/-- The slots fit the state the verifier has in front of the instruction. -/
def Supported (m : Method) (pc : Nat) (S : SlotTypes m) : Prop :=
  ∃ V, stateBefore (blockTypes m) pc = some V ∧ FitsSlots S V

theorem Supported.inf {pc : Nat} {S T : SlotTypes m} (hS : Supported m pc S)
    (hT : Supported m pc T) : Supported m pc (S ⊓ T) := by
  obtain ⟨V, hV, hFits⟩ := hS
  obtain ⟨W, hW, hFits'⟩ := hT
  rw [hV] at hW
  cases hW
  exact ⟨V, hV, hFits.inf hFits'⟩

/-- A state the verifier absorbed supports what fits the pushed one. -/
theorem supported_of_belowAt {ret : RetScan} {params : List RType} {fix : Rbc.Fixpoint m ret params}
    (hTable : fix.wl.inAt = blockTypes m) {pc : Nat} {V : FlowState m} {S : SlotTypes m}
    (hBelow : fix.BelowAt pc V) (hFits : FitsSlots S V) : Supported m pc S := by
  obtain ⟨V', hV', hle⟩ := hBelow
  refine ⟨_, ?_, hFits.mono hle⟩
  unfold stateBefore
  rw [← hTable, hV']
  rfl

theorem exists_blockType {ret : RetScan} {params : List RType} {fix : Rbc.Fixpoint m ret params}
    (hTable : fix.wl.inAt = blockTypes m) {pc : Nat} {V : FlowState m}
    (h : stateBefore (blockTypes m) pc = some V) :
    ∃ V₀, fix.wl.inAt (Rbc.blockOf m pc) = some V₀ ∧
      flowTo (Rbc.blockOf m pc) V₀ (pc - Rbc.blockOf m pc) = V := by
  unfold stateBefore at h
  rw [← hTable] at h
  exact Option.map_eq_some_iff.mp h

namespace Taken

theorem entry (hm : Taken m) : Supported m 0 (entryTypes m) := by
  obtain ⟨-, ret, params, hParams, fix, hTable⟩ := accepted_diags hm.accepted hm.code
  exact supported_of_belowAt hTable (fix.belowAt_of_absorbs fix.entry isLeader_zero)
    (FitsSlots.entry hParams)

theorem next (hm : Taken m) {pc q : Nat} {S : SlotTypes m} (hpc : pc < m.code.length)
    (hq : q ∈ nextPcs m pc) (h : Supported m pc S) :
    Supported m q (step (codeAt m pc) S) := by
  obtain ⟨V, hV, hFits⟩ := h
  obtain ⟨hDiags, ret, params, -, fix, hTable⟩ := accepted_diags hm.accepted hm.code
  have hst := structured_of_diags hDiags
  obtain ⟨V₀, hV₀, rfl⟩ := exists_blockType hTable hV
  exact supported_of_belowAt hTable (fix.next hst hpc hV₀ hq)
    (hFits.step (hst.instruction pc hpc) (hm.scope pc hpc) (fix.checkIns_at hpc hV₀)
      (hm.read pc hpc))

theorem exception (hm : Taken m) {pc : Nat} {S : SlotTypes m} {h : ExceptionHandler}
    (hpc : pc < m.code.length) (hMem : h ∈ m.handlers) (hCovered : h.start ≤ pc ∧ pc < h.stop)
    (hS : Supported m pc S) : Supported m h.handler (handlerTypes S) := by
  obtain ⟨V, hV, hFits⟩ := hS
  obtain ⟨hDiags, ret, params, -, fix, hTable⟩ := accepted_diags hm.accepted hm.code
  obtain ⟨V₀, hV₀, rfl⟩ := exists_blockType hTable hV
  have hCovers := (structured_of_diags hDiags).covers hMem hCovered
  exact supported_of_belowAt hTable (fix.exception hpc hV₀ hMem hCovers) hFits.handlerEntry

end Taken

theorem walk_succ (s k : Nat) (S : SlotTypes m) :
    walk (range' s (k + 1)) S = step (codeAt m (s + k)) (walk (range' s k) S) := by
  unfold walk
  rw [range'_1_concat, foldl_append]
  rfl

theorem mem_walkSeeds {k : Nat} : ∀ {s : Nat} {S : SlotTypes m} {e : Nat × SlotTypes m},
    e ∈ walkSeeds (range' s k) S → ∃ i, i < k ∧ e ∈ seeds (s + i) (walk (range' s i) S) := by
  induction k with
  | zero => exact fun h => absurd h not_mem_nil
  | succ k ih =>
    intro s S e h
    rw [range'_succ, walkSeeds, mem_append] at h
    rcases h with h | h
    · exact ⟨0, Nat.succ_pos k, h⟩
    · obtain ⟨i, hi, hMem⟩ := ih h
      refine ⟨i + 1, by omega, ?_⟩
      rw [show s + (i + 1) = s + 1 + i by omega, range'_succ]
      exact hMem

namespace Taken

variable {b : Nat} {S : SlotTypes m}

theorem walk (hm : Taken m) (hb : b < (starts m).length) (h : Supported m (startPc m b) S) :
    ∀ k, startPc m b + k < endPc m b →
      Supported m (startPc m b + k) (Builder.walk (range' (startPc m b) k) S) := by
  intro k
  induction k with
  | zero => exact fun _ => h
  | succ k ih =>
    intro hk
    have hEnd := (startPc_lt_endPc hb).2
    have hHere := ih (by omega)
    have hpc : startPc m b + k < m.code.length := by omega
    have hst := structured_of_diags (accepted_diags hm.accepted hm.code).1
    have hInside : isTerminator (codeAt m (startPc m b + k)).op = false :=
      not_terminator_inside hb (by omega) (by omega)
    have hNext : startPc m b + (k + 1) ∈ nextPcs m (startPc m b + k) := by
      rw [← mem_exits (hst.instruction _ hpc) hm.short, exits_of_not_terminator hInside]
      exact mem_singleton.mpr (by omega)
    rw [walk_succ]
    exact hm.next hpc hNext hHere

/-- What the visit of a block pushes is supported. -/
theorem typeEdges (hm : Taken m) (reachable : Nat → Bool) (hb : b < (starts m).length)
    (h : Supported m (startPc m b) S) : ∀ e ∈ Builder.typeEdges reachable b S,
      e.1 < (starts m).length ∧ Supported m (startPc m e.1) e.2 := by
  obtain ⟨hStart, hEnd⟩ := startPc_lt_endPc hb
  have hst := structured_of_diags (accepted_diags hm.accepted hm.code).1
  intro e he
  unfold Builder.typeEdges at he
  rcases mem_append.mp he with he | he
  · obtain ⟨i, hi, hSeed⟩ := mem_walkSeeds he
    have hi' : startPc m b + i < endPc m b := by
      unfold endPc
      omega
    unfold seeds at hSeed
    split at hSeed
    · obtain ⟨h', hMem, rfl⟩ := mem_map.mp hSeed
      obtain ⟨hMem, hCond⟩ := mem_filter.mp hMem
      simp only [Bool.and_eq_true, decide_eq_true_eq] at hCond
      have hLeader : h'.handler ∈ starts m := by
        refine mem_starts.mpr ⟨hCond.2, ?_⟩
        simp only [isLeader, Bool.or_eq_true, any_eq_true, beq_iff_eq]
        exact Or.inr ⟨h', hMem, rfl⟩
      refine ⟨blockOf_lt hm.code _, ?_⟩
      dsimp only
      rw [startPc_blockOf hLeader]
      exact hm.exception (by omega) hMem ⟨hCond.1.1, hCond.1.2⟩ (hm.walk hb h i hi')
    · cases hSeed
  · obtain ⟨t, ht, rfl⟩ := mem_map.mp he
    obtain ⟨q, hq, hqn, rfl⟩ := exits_of_mem_succ (mem_filter.mp ht).1
    refine ⟨blockOf_lt hm.code q, ?_⟩
    have hLast : lastPc m b = startPc m b + (endPc m b - startPc m b - 1) := by
      show endPc m b - 1 = _
      omega
    have hOut := hm.walk hb h (endPc m b - startPc m b - 1) (by omega)
    rw [← hLast] at hOut
    have hNext : q ∈ nextPcs m (lastPc m b) :=
      (mem_exits (hst.instruction _ (by omega)) hm.short q).mp hq
    dsimp only
    rw [startPc_blockOf (mem_starts_of_exits hb hqn hq)]
    have hWalk : Builder.walk (blockPcs m b) S = step (codeAt m (lastPc m b))
        (Builder.walk (range' (startPc m b) (endPc m b - startPc m b - 1)) S) := by
      rw [hLast, ← walk_succ, Nat.sub_add_cancel (by omega)]
      rfl
    rw [hWalk]
    exact hm.next (by omega) hNext hOut

end Taken

/-! ## The loop -/

/-- What holds at every turn of the loop. -/
structure Analysing (reachable : Nat → Bool) (st : TypeFlow m) : Prop where
  length_eq : st.wl.ins.length = (starts m).length
  settled : Worklist.Settled (typeEdges reachable) st.wl
  queued : ∀ b ∈ st.wl.queue, ∃ S, st.wl.inAt b = some S
  entry : ∃ S, st.wl.inAt 0 = some S
  supported : ∀ b S, st.wl.inAt b = some S → Supported m (startPc m b) S
  failed : st.failed = true → kBuildBudget < st.ticks

/-- The steps over an accepted method record no diagnostic. -/
theorem stepFails_false (hm : Taken m) {pc : Nat} (hpc : pc < m.code.length) :
    stepFails m (codeAt m pc) = false := by
  have hst := structured_of_diags (accepted_diags hm.accepted hm.code).1
  unfold stepFails
  by_cases hField : (codeAt m pc).op = .getfield ∨ (codeAt m pc).op = .getstatic
  · have hSig : sigUsesCpIndex (info (codeAt m pc).op).sig = true := by
      rcases hField with h | h <;> rw [h] <;> rfl
    obtain ⟨c, hGet, hKind⟩ := cpAt_of_structure (hst.instruction pc hpc) hSig
    have hRef : c.kind = .fieldRef := by
      rcases hField with h | h <;> rw [h] at hKind <;> simpa [cpKindOk] using hKind
    unfold cpAt
    rw [hGet]
    dsimp only
    rw [if_neg (not_not_intro hRef), Bool.and_false]
  · simp only [not_or] at hField
    simp [hField.1, hField.2]

theorem mem_blockPcs_lt {b pc : Nat} (hb : b < (starts m).length) (h : pc ∈ blockPcs m b) :
    pc < m.code.length := by
  obtain ⟨hStart, hEnd⟩ := startPc_lt_endPc hb
  unfold blockPcs at h
  have hIn := mem_range'_1.mp h
  unfold endPc at hStart hEnd
  omega

theorem failed_spend (hm : Taken m) {st : TypeFlow m} {k : Nat} {pcs : List Nat}
    (hPcs : ∀ pc ∈ pcs, pc < m.code.length) (hOld : st.failed = true → kBuildBudget < st.ticks) :
    (st.spend k pcs).failed = true ↔ kBuildBudget < (st.spend k pcs).ticks := by
  have hNone : (pcs.any fun pc => stepFails m (codeAt m pc)) = false := by
    rw [any_eq_false]
    intro pc hpc
    rw [stepFails_false hm (hPcs pc hpc)]
    exact Bool.false_ne_true
  unfold TypeFlow.spend
  dsimp only
  rw [hNone, Bool.or_false, Bool.or_eq_true, decide_eq_true_eq]
  constructor
  · rintro (hFailed | hOver)
    · have hBefore := hOld hFailed
      omega
    · exact hOver
  · exact Or.inr

theorem analysing_start (hm : Taken m) (reachable : Nat → Bool) (ticks : Nat) :
    Analysing reachable (typeStart m ticks) := by
  have hPos : 0 < (starts m).length := length_pos_of_mem (zero_mem_starts hm.code)
  have hZero : 0 < (Worklist.mk (replicate (starts m).length
      (none : Option (SlotTypes m))) []).ins.length := by
    rw [length_replicate]
    exact hPos
  have hNone : ∀ b, (Worklist.mk (replicate (starts m).length
      (none : Option (SlotTypes m))) []).inAt b = none := by
    intro b
    unfold Worklist.inAt
    rw [getElem?_replicate]
    split <;> rfl
  have hOnly : ∀ b S, (typeStart m ticks).wl.inAt b = some S → b = 0 ∧ S = entryTypes m := by
    intro b S hS
    unfold typeStart at hS
    dsimp only at hS
    by_cases hb : b = 0
    · subst hb
      rw [Worklist.inAt_put_self _ hZero] at hS
      exact ⟨rfl, (Option.some.inj hS).symm⟩
    · rw [Worklist.inAt_put_of_ne _ hb, hNone] at hS
      cases hS
  have hQueue : (typeStart m ticks).wl.queue = Worklist.enq 0 [] := rfl
  refine ⟨?_, ?_, ?_, ⟨entryTypes m, Worklist.inAt_put_self _ hZero⟩, ?_, ?_⟩
  · unfold typeStart
    rw [Worklist.length_put, length_replicate]
  · intro b S hS hb
    obtain ⟨rfl, -⟩ := hOnly b S hS
    rw [hQueue] at hb
    exact absurd (Worklist.mem_enq.mpr (Or.inl rfl)) hb
  · intro b hb
    rw [hQueue] at hb
    rcases Worklist.mem_enq.mp hb with rfl | hb
    · exact ⟨entryTypes m, Worklist.inAt_put_self _ hZero⟩
    · cases hb
  · intro b S hS
    obtain ⟨rfl, rfl⟩ := hOnly b S hS
    have hStart : startPc m 0 = 0 := by
      have hBlock := startPc_blockOf (zero_mem_starts hm.code)
      rwa [blockOf_zero hm.code] at hBlock
    rw [hStart]
    exact hm.entry
  · intro hFailed
    cases hFailed

/-- **One turn.** -/
theorem Analysing.turn (hm : Taken m) {reachable : Nat → Bool} {st : TypeFlow m}
    (h : Analysing reachable st) : Analysing reachable (typeTurn reachable st) := by
  unfold typeTurn
  cases hQueue : st.wl.queue with
  | nil => exact h
  | cons b queue =>
    obtain ⟨S, hS⟩ := h.queued b (by rw [hQueue]; exact mem_cons_self)
    have hb : b < (starts m).length := by
      rw [← h.length_eq]
      exact Worklist.lt_of_inAt hS
    have hEdges := hm.typeEdges reachable hb (h.supported b S hS)
    have hRange : ∀ e ∈ typeEdges reachable b S, e.1 < (Worklist.mk st.wl.ins queue).ins.length :=
      fun e he => by
        show e.1 < st.wl.ins.length
        rw [h.length_eq]
        exact (hEdges e he).1
    have hDescends := (Worklist.absorbAll_spec hRange).1
    dsimp only
    rw [hS, Option.getD_some]
    refine ⟨?_, ?_, ?_, ?_, ?_, ?_⟩
    · show ((Worklist.mk st.wl.ins queue).absorbAll (typeEdges reachable b S)).ins.length = _
      rw [hDescends.length_eq]
      exact h.length_eq
    · exact h.settled.visit (fun c hc => by rw [hQueue] at hc; exact mem_cons.mp hc) hS
        hRange
    · apply Worklist.queued_absorbAll hRange
      intro c hc
      exact h.queued c (by rw [hQueue]; exact mem_cons_of_mem b hc)
    · obtain ⟨S₀, hS₀⟩ := h.entry
      obtain ⟨S₁, hS₁, -⟩ := hDescends.below 0 S₀ hS₀
      exact ⟨S₁, hS₁⟩
    · exact Worklist.forall_inAt_absorbAll (P := fun c S => Supported m (startPc m c) S)
        (fun _ _ _ hs he => hs.inf he) hRange (fun e he => (hEdges e he).2) h.supported
    · have hFailed : (st.failed = true → kBuildBudget < st.ticks) := h.failed
      exact (failed_spend hm (fun pc hpc => mem_blockPcs_lt hb hpc) hFailed).mp

theorem ticks_typeTurn (reachable : Nat → Bool) {st : TypeFlow m} (h : st.wl.queue ≠ []) :
    st.ticks < (typeTurn reachable st).ticks := by
  unfold typeTurn
  cases hQueue : st.wl.queue with
  | nil => exact absurd hQueue h
  | cons b queue =>
    show st.ticks < st.ticks + (1 + (blockPcs m b).length)
    omega

theorem ticks_of_alive {reachable : Nat → Bool} {st : TypeFlow m} (hQueue : st.wl.queue ≠ [])
    (h : (typeTurn reachable st).failed = false) :
    (typeTurn reachable st).ticks ≤ kBuildBudget := by
  unfold typeTurn at h ⊢
  cases hCases : st.wl.queue with
  | nil => exact absurd hCases hQueue
  | cons b queue =>
    rw [hCases] at h
    dsimp only [TypeFlow.spend] at h ⊢
    simp only [Bool.or_eq_false_iff, decide_eq_false_iff_not] at h
    omega

/-- The loop comes to an end, with the queue empty or beyond the budget. -/
theorem fixpoint_returns (hm : Taken m) (reachable : Nat → Bool) (ticks : Nat) :
    ∃ st, Returns (fun n => fixpoint m reachable ticks n) st ∧ Analysing reachable st ∧
      (st.failed = false → st.wl.queue = []) := by
  obtain ⟨st, hReturns, ⟨hInv, -⟩, hEnd⟩ := whileLoop_returns
    (fun st : TypeFlow m => !st.wl.queue.isEmpty && !st.failed)
    (fun _ st => some (typeTurn reachable st))
    (fun st => Analysing reachable st ∧ (st.failed = false → st.ticks ≤ kBuildBudget + ticks))
    (fun st => kBuildBudget + ticks + 1 - st.ticks)
    (fun st => steady_const _)
    (by
      rintro st ⟨hInv, hBudget⟩ hCond
      obtain ⟨hQueue, hAlive⟩ : st.wl.queue ≠ [] ∧ st.failed = false := by simpa using hCond
      have hBefore := hBudget hAlive
      have hTicks := ticks_typeTurn reachable hQueue
      refine ⟨_, ⟨0, rfl⟩, ⟨hInv.turn hm, fun hAlive' => ?_⟩, by omega⟩
      have hWithin := ticks_of_alive hQueue hAlive'
      omega)
    ⟨analysing_start hm reachable ticks, fun _ => Nat.le_add_left ticks kBuildBudget⟩
  refine ⟨st, hReturns, hInv, fun hAlive => ?_⟩
  simpa [hAlive] using hEnd

/-- Behind the loop every block that is reachable over normal edges is visited. -/
theorem visited_of_reachable (hm : Taken m) {reachable : Nat → Bool} {st : TypeFlow m}
    (hReach : ∀ b, reachable b = true ↔ (cfgOf m hm.code).Reachable b)
    (h : Analysing reachable st) (hDone : st.wl.queue = []) {b : Nat}
    (hb : (cfgOf m hm.code).Reachable b) : ∃ S, st.wl.inAt b = some S := by
  induction hb with
  | refl => exact h.entry
  | @tail b t hPath hEdge ih =>
    obtain ⟨S, hS⟩ := ih
    have hMem : (t, Builder.walk (blockPcs m b) S) ∈ typeEdges reachable b S := by
      apply mem_append_right
      refine mem_map.mpr ⟨t, mem_filter.mpr ⟨hEdge, ?_⟩, rfl⟩
      exact (hReach t).mpr (hPath.tail hEdge)
    obtain ⟨T, hT, -⟩ :=
      h.settled b S hS (by rw [hDone]; exact not_mem_nil) _ hMem
    exact ⟨T, hT⟩

theorem supported_typesBefore (hm : Taken m) {reachable : Nat → Bool} {st : TypeFlow m}
    (h : Analysing reachable st) {pc : Nat} (hpc : pc < m.code.length) {S : SlotTypes m}
    (hS : st.wl.inAt (blockOf m pc) = some S) (hReach : reachable (blockOf m pc) = true) :
    Supported m pc (typesBefore reachable st pc) := by
  obtain ⟨hLow, hHigh⟩ := block_bounds hpc
  have hb := blockOf_lt hm.code pc
  have hWalk := hm.walk hb (h.supported _ S hS) (pc - startPc m (blockOf m pc)) (by omega)
  rw [Nat.add_sub_cancel' hLow] at hWalk
  unfold typesBefore
  rw [hS]
  dsimp only
  rw [if_pos hReach]
  exact hWalk

/-! ## Agreement -/

/-- The slots agree at an instruction: the verifier has a state there, and each local and
register it has a type for has that type with the builder, null and another reference
counting as one. -/
def AgreeAt (m : Method) (S : SlotTypes m) (pc : Nat) : Prop :=
  ∃ V, stateBefore (blockTypes m) pc = some V ∧ (∀ i, i < m.numLocals → V.loc i ≠ .bottom →
      S.get (localIdx i) = V.loc i ∨
        RType.isRefLike (S.get (localIdx i)) = true ∧ RType.isRefLike (V.loc i) = true) ∧
    ∀ r, r < m.numRegs → V.reg r ≠ .bottom → S.get (regIdx m r) = V.reg r ∨
        RType.isRefLike (S.get (regIdx m r)) = true ∧ RType.isRefLike (V.reg r) = true

theorem Supported.agreeAt {pc : Nat} {S : SlotTypes m} (h : Supported m pc S) : AgreeAt m S pc := by
  obtain ⟨V, hV, hFits⟩ := h
  refine ⟨V, hV, fun i hi hne => ?_, fun r hr hne => ?_⟩
  · exact (hFits.locals i hi).resolve_left hne
  · exact (hFits.regs r hr).resolve_left hne

/-- The phase as it is run: reachability over the blocks first, then the types. -/
def typesOf (m : Method) (hCode : 0 < m.code.length) (before ticks n : Nat) :
    Option (Stabilized m) :=
  (reachability (cfgOf m hCode) before n).bind fun r => stabilizeTypes m r.marked ticks n

theorem stabilizeTypes_steady (m : Method) (reachable : Nat → Bool) (ticks : Nat) :
    Steady fun n => stabilizeTypes m reachable ticks n := by
  unfold stabilizeTypes fixpoint
  exact steady_map
    (whileLoop_steady (fun st => steady_const (some (typeTurn reachable st))) (typeStart m ticks)) _

/-- **Type stabilisation.**  For a method that the verifier accepts and the builder's scan
passes, and whose invokes have results both sides read alike, the phase always comes to an
end, it fails exactly beyond the budget, and when it does not fail its slots agree with the
verifier's at every instruction control can come to without an exception. -/
theorem stabilizeTypes_agrees {m : Method} {inlined : Bool} {nodeCount : Nat}
    (hAccept : (verify m).ok = true) (hScan : scanStructure m inlined nodeCount = [])
    (hRead : ∀ ins ∈ m.code, readsResult m ins = true) (before ticks : Nat) :
    ∃ (hCode : 0 < m.code.length) (r : Stabilized m),
      Returns (fun n => typesOf m hCode before ticks n) r ∧
      (r.failed = true ↔ kBuildBudget < r.ticks) ∧
      (r.failed = false → ∀ pc, Entered m pc → AgreeAt m (r.types pc) pc) := by
  have hm := taken_of_scan hAccept hScan hRead
  obtain ⟨reach, k, hk⟩ := reachability_returns (cfgOf m hm.code) before
  have hReach := reachability_spec hk
  obtain ⟨st, hSt, hInv, hDone⟩ := fixpoint_returns hm reach.marked ticks
  have hTypes := hSt.map fun st : TypeFlow m =>
    let pcs := (written reach.marked st).flatMap (blockPcs m)
    let done := st.spend pcs.length pcs
    (⟨typesBefore reach.marked st, done.ticks, done.failed⟩ : Stabilized m)
  have hPcs : ∀ pc ∈ (written reach.marked st).flatMap (blockPcs m), pc < m.code.length := by
    intro pc hpc
    obtain ⟨b, hb, hpc⟩ := mem_flatMap.mp hpc
    exact mem_blockPcs_lt (mem_range.mp (mem_filter.mp hb).1) hpc
  refine ⟨hm.code, _, Returns.bind ?_ ?_ ⟨k, hk⟩ hTypes, ?_, ?_⟩
  · exact Marking.search_steady _ _
  · exact stabilizeTypes_steady m reach.marked ticks
  · exact failed_spend hm hPcs hInv.failed
  intro hAlive pc hEntered
  have hst := structured_of_diags (accepted_diags hAccept hm.code).1
  obtain ⟨hpc, hBlock⟩ := reachable_of_entered hst hm.short hm.code hEntered
  have hLoop : st.failed = false := by
    dsimp only [TypeFlow.spend] at hAlive
    simp only [Bool.or_eq_false_iff] at hAlive
    exact hAlive.1.1
  obtain ⟨S, hS⟩ := visited_of_reachable hm hReach hInv (hDone hLoop) hBlock
  exact (supported_typesBefore hm hInv hpc hS ((hReach _).mpr hBlock)).agreeAt

theorem typesOf_steady (m : Method) (hCode : 0 < m.code.length) (before ticks : Nat) :
    Steady fun n => typesOf m hCode before ticks n :=
  steady_bind (Marking.search_steady _ _) fun r => stabilizeTypes_steady m r.marked ticks

/-- `static int f(int x) { while (x != 0) x = x - 1; return x; }` -/
def countDown : Method where
  name := "f"
  descriptor := "(I)I"
  flags := 0x0008
  numRegs := 1
  numLocals := 1
  code := [⟨.iload, 0, 0, 0, 0⟩, ⟨.ifeq, 0, 0, 0, 5⟩, ⟨.iinc, 0, 0, 0, -1⟩,
    ⟨.istore, 0, 0, 0, 0⟩, ⟨.goto, 0, 0, 0, 0⟩, ⟨.iload, 0, 0, 0, 0⟩, ⟨.ireturn, 0, 0, 0, 0⟩]

theorem stabilizeTypes_agrees_countDown :
    ∃ (hCode : 0 < countDown.code.length) (r : Stabilized countDown),
      Returns (fun n => typesOf countDown hCode 20 30 n) r ∧
        ∀ pc, Entered countDown pc → AgreeAt countDown (r.types pc) pc := by
  obtain ⟨hCode, r, hReturns, -, hAgree⟩ := @stabilizeTypes_agrees countDown false 1
    (by decide +kernel) (by decide +kernel) (by decide +kernel) 20 30
  refine ⟨hCode, r, hReturns, hAgree ?_⟩
  have hRun : (typesOf countDown (by decide) 20 30 50).map Stabilized.failed = some false := by
    decide +kernel
  obtain ⟨r', hr', hAlive⟩ := Option.map_eq_some_iff.mp hRun
  rw [hReturns.unique (typesOf_steady countDown hCode 20 30) ⟨50, hr'⟩]
  exact hAlive

/-- Slots that are the same, for every slot the verifier has a type for. -/
def EqualAt (m : Method) (S : SlotTypes m) (pc : Nat) : Prop :=
  ∃ V, stateBefore (blockTypes m) pc = some V ∧
    (∀ i, i < m.numLocals → V.loc i ≠ .bottom → S.get (localIdx i) = V.loc i) ∧
    ∀ r, r < m.numRegs → V.reg r ≠ .bottom → S.get (regIdx m r) = V.reg r

/-- `static void f() { Object x = null; }` -/
def nullLocal : Method where
  name := "f"
  descriptor := "()V"
  flags := 0x0008
  numRegs := 1
  numLocals := 1
  code := [⟨.aconstNull, 0, 0, 0, 0⟩, ⟨.astore, 0, 0, 0, 0⟩, ⟨.returnVoid, 0, 0, 0, 0⟩]

/-- Behind the store the local is a reference with the builder and null with the
verifier. -/
theorem not_stabilizeTypes_equal :
    ¬∀ (m : Method) (hCode : 0 < m.code.length), (verify m).ok = true →
      scanStructure m false 1 = [] → ∀ (before ticks : Nat) (r : Stabilized m),
        Returns (fun n => typesOf m hCode before ticks n) r → r.failed = false →
          ∀ pc, Entered m pc → EqualAt m (r.types pc) pc := by
  intro hAll
  have hRun : (typesOf nullLocal (by decide) 6 6 50).map
      (fun r => (r.failed, (r.types 2).get 0)) = some (false, .ref) := by
    decide +kernel
  obtain ⟨r, hr, hPair⟩ := Option.map_eq_some_iff.mp hRun
  obtain ⟨hAlive, hRef⟩ := Prod.ext_iff.mp hPair
  have hEntered : Entered nullLocal 2 :=
    (ReflTransGen.refl.tail (b := 0) (c := 1) (by decide)).tail (by decide)
  obtain ⟨V, hV, hLocals, -⟩ :=
    hAll nullLocal (by decide) (by decide +kernel) (by decide +kernel) 6 6 r ⟨50, hr⟩ hAlive 2
      hEntered
  have hNull : (stateBefore (blockTypes nullLocal) 2).map (fun V => V.loc 0) = some .null := by
    decide +kernel
  rw [hV] at hNull
  have hLoc : V.loc 0 = .null := Option.some.inj hNull
  have hSame := hLocals 0 (by decide) (by rw [hLoc]; decide)
  rw [hLoc] at hSame
  exact absurd (hRef.symm.trans hSame) (by decide)

end B2Compiler.Passes.Builder
