import B2Compiler.Rbc.VerifierSound

/-!
# What the protected-range check sees

The check of the protected ranges compares the types of each local over the instructions of a
range through the change points of the sweep.  A local that has two types at reachable
instructions of a range is always reported.  It is reported in that case only, if the range starts
at a reachable instruction and no store in it is lost in the merge right behind it.  Registers are
not looked at, and neither is what the handler makes of a local.
-/

namespace B2Compiler.Rbc

open Lib Lib.ChangePoints List Option Bool Nat

variable {m : Method}

/-- The state in front of an instruction, when its block is reached. -/
def stateBefore (T : Nat → Option (FlowState m)) (pc : Nat) : Option (FlowState m) :=
  (T (blockOf m pc)).map fun S => flowTo (blockOf m pc) S (pc - blockOf m pc)

/-- Type of a local in front of a reachable instruction. -/
def localBefore (T : Nat → Option (FlowState m)) (i pc : Nat) : Option RType :=
  (stateBefore T pc).map fun S => S.loc i

/-- Only a store with its operands in range stores. -/
theorem storedType_none {ins : Ins} {S : FlowState m} {i : Nat}
    (h : ¬(operandsOk m ins = true ∧ (info ins.op).sig = .slotReg ∧ ins.immIdx < m.numLocals ∧
      ins.immIdx = i)) : storedType ins S i = none :=
  if_neg h

theorem loc_stepIns (ins : Ins) (S : FlowState m) {i : Nat} (hi : i < m.numLocals) :
    (stepIns ins S).loc i = (storedType ins S i).getD (S.loc i) := by
  by_cases hok : operandsOk m ins = false
  · have hnone : storedType ins S i = none :=
      storedType_none (fun hand => by rw [hok] at hand; exact Bool.noConfusion hand.1)
    unfold stepIns
    rw [hnone, if_pos hok]
    rfl
  have hok' : operandsOk m ins = true := by simpa using hok
  by_cases hstore : (info ins.op).sig = .slotReg
  · have hop : ins.op ≠ .iinc := by
      intro hop
      rw [hop] at hstore
      exact absurd hstore (by decide)
    have hload : (info ins.op).sig ≠ .regSlot := by
      rw [hstore]
      decide
    unfold stepIns
    dsimp only
    rw [if_neg hok, if_neg hop, if_neg hload, if_pos hstore]
    by_cases hlt : ins.immIdx < m.numLocals
    · rw [if_pos hlt, FlowState.loc_setLoc S _ hlt]
      unfold storedType
      by_cases heq : ins.immIdx = i
      · rw [if_pos heq.symm, if_pos ⟨hok', hstore, hlt, heq⟩]
        rfl
      · rw [if_neg (Ne.symm heq), if_neg (fun hand => heq hand.2.2.2)]
        rfl
    · rw [if_neg hlt, storedType_none (fun hand => hlt hand.2.2.1)]
      rfl
  · -- every other step writes a register or nothing
    rw [storedType_none (fun hand => hstore hand.2.1)]
    unfold stepIns
    dsimp only
    rw [if_neg hok, if_neg hstore]
    split
    · rfl
    · split
      · split <;> rfl
      · split <;> rfl

theorem mem_storeTrace {i : Nat} (k : Nat) :
    ∀ {b : Nat} {S : FlowState m} {e : Nat × RType}, e ∈ storeTrace i (range' b k) S ↔
      ∃ j, j < k ∧ e.1 = b + j + 1 ∧ storedType (codeAt m (b + j)) (flowTo b S j) i = some e.2 := by
  induction k with
  | zero =>
    intro b S e
    constructor
    · intro h
      cases h
    · rintro ⟨j, hj, _⟩
      exact absurd hj (not_lt_zero j)
  | succ k ih =>
    intro b S e
    rw [range'_succ, storeTrace, mem_append, ih]
    constructor
    · rintro (hhead | ⟨j, hj, hpos, hstored⟩)
      · rw [mem_toList] at hhead
        obtain ⟨t, ht, rfl⟩ := map_eq_some_iff.mp hhead
        exact ⟨0, succ_pos k, rfl, ht⟩
      · refine ⟨j + 1, by omega, by omega, ?_⟩
        rw [flowTo_step, show b + (j + 1) = b + 1 + j by omega]
        exact hstored
    · rintro ⟨j, hj, hpos, hstored⟩
      cases j with
      | zero =>
        left
        rw [mem_toList]
        exact map_eq_some_iff.mpr ⟨e.2, hstored, Prod.ext hpos.symm rfl⟩
      | succ j =>
        right
        refine ⟨j, by omega, by omega, ?_⟩
        rw [flowTo_step, show b + (j + 1) = b + 1 + j by omega] at hstored
        exact hstored

theorem ascending_storeTrace (i k : Nat) :
    ∀ (b : Nat) (S : FlowState m), Ascending (storeTrace i (range' b k) S) := by
  induction k with
  | zero => exact fun _ _ => List.Pairwise.nil
  | succ k ih =>
    intro b S
    rw [range'_succ, storeTrace]
    refine pairwise_append.mpr ⟨?_, ih _ _, ?_⟩
    · cases storedType (codeAt m b) S i with
      | none => exact List.Pairwise.nil
      | some t => exact pairwise_singleton _ _
    intro e he f hf
    rw [mem_toList] at he
    obtain ⟨t, _, rfl⟩ := map_eq_some_iff.mp he
    obtain ⟨j, _, hpos, _⟩ := (mem_storeTrace k).mp hf
    dsimp only
    omega

/-- The value of a block's stores up to an instruction is the local's type there. -/
theorem final_storeTrace {i : Nat} (hi : i < m.numLocals) (k : Nat) :
    ∀ (b j : Nat) (S : FlowState m), j ≤ k →
      final (S.loc i) ((storeTrace i (range' b k) S).filter (fun e => e.1 ≤ b + j)) =
        (flowTo b S j).loc i := by
  induction k with
  | zero =>
    intro b j S hj
    have hzero : j = 0 := by omega
    subst hzero
    rfl
  | succ k ih =>
    intro b j S hj
    cases j with
    | zero =>
      have hnil : (storeTrace i (range' b (k + 1)) S).filter (fun e => e.1 ≤ b + 0) =
          [] := by
        rw [filter_eq_nil_iff]
        intro e he
        obtain ⟨j, _, hpos, _⟩ := (mem_storeTrace (k + 1)).mp he
        simp only [decide_eq_true_eq]
        omega
      rw [hnil]
      rfl
    | succ j =>
      have hrest := ih (b + 1) j (stepIns (codeAt m b) S) (by omega)
      have hshift : b + 1 + j = b + (j + 1) := by omega
      rw [hshift] at hrest
      rw [flowTo_step, ← hrest, range'_succ, storeTrace, filter_append, final_append]
      congr 1
      rw [loc_stepIns _ _ hi]
      cases storedType (codeAt m b) S i with
      | none => rfl
      | some t =>
        rw [map_some, toList_some, filter_cons, if_pos (by simp)]
        rfl

/-! ## Blocks in code order -/

theorem pairwise_leaders (m : Method) : (leaders m).Pairwise (· < ·) :=
  List.Pairwise.filter _ pairwise_lt_range

theorem isLeader_of_mem {b : Nat} (h : b ∈ leaders m) : isLeader m b = true :=
  (mem_filter.mp h).2

theorem mem_leaders {b : Nat} (hb : b < m.code.length) (h : isLeader m b = true) : b ∈ leaders m :=
  mem_filter.mpr ⟨mem_range.mpr hb, h⟩

theorem blockOf_add {b k : Nat} (hlead : isLeader m b = true)
    (hpcs : blockPcs m b = range' b k) {j : Nat} (hj : j < k) : blockOf m (b + j) = b := by
  induction j with
  | zero => exact blockOf_of_leader hlead
  | succ j ih =>
    have hmem : b + (j + 1) ∈ blockPcs m b := by
      rw [hpcs]
      exact mem_range'_1.mpr ⟨by omega, by omega⟩
    have hquiet := not_isLeader_of_mem hmem (by omega)
    rw [← add_assoc] at hquiet ⊢
    rw [blockOf_succ hquiet]
    exact ih (by omega)

theorem block_le_next {b b' k : Nat} (hpcs : blockPcs m b = range' b k)
    (hlead : isLeader m b' = true) (hlt : b < b') : b + k ≤ b' := by
  by_contra hcon
  have hmem : b' ∈ blockPcs m b := by
    rw [hpcs]
    exact mem_range'_1.mpr ⟨by omega, by omega⟩
  have hquiet := not_isLeader_of_mem hmem (by omega)
  rw [hlead] at hquiet
  cases hquiet

/-- The entries of a block lie between its start and the next block. -/
theorem blockTrace_bounds {i b : Nat} {S : FlowState m} {e : Nat × RType} (hb : b ∈ leaders m)
    (he : e ∈ blockTrace i b S) :
    b ≤ e.1 ∧ ∀ b', isLeader m b' = true → b < b' → e.1 ≤ b' := by
  obtain ⟨k, _, _, hpcs, _⟩ := blockPcs_eq (lt_of_mem_leaders hb)
  unfold blockTrace at he
  rw [hpcs] at he
  rcases mem_cons.mp he with rfl | he
  · exact ⟨le_refl _, fun b' _ hlt => le_of_lt hlt⟩
  · obtain ⟨j, hj, hpos, _⟩ := (mem_storeTrace k).mp he
    refine ⟨by omega, fun b' hlead hlt => ?_⟩
    have hnext := block_le_next hpcs hlead hlt
    omega

theorem ascending_blockTrace (i : Nat) {b : Nat} (S : FlowState m) (hb : b ∈ leaders m) :
    Ascending (blockTrace i b S) := by
  obtain ⟨k, _, _, hpcs, _⟩ := blockPcs_eq (lt_of_mem_leaders hb)
  refine pairwise_cons.mpr ⟨fun e he => ?_, ?_⟩
  · exact (blockTrace_bounds hb (mem_cons_of_mem _ he)).1
  · rw [hpcs]
    exact ascending_storeTrace i k b S

section Trace

variable {T : Nat → Option (FlowState m)} {i : Nat}

theorem block_of_mem_sweepTrace {bs : List Nat} {e : Nat × RType}
    (h : e ∈ sweepTrace T bs i) : ∃ b ∈ bs, ∃ S, T b = some S ∧ e ∈ blockTrace i b S := by
  obtain ⟨b, hb, he⟩ := mem_flatMap.mp h
  split at he
  · cases he
  · rename_i S hS
    exact ⟨b, hb, S, hS, he⟩

theorem ascending_sweepTrace : Ascending (sweepTrace T (leaders m) i) := by
  have hall : ∀ bs : List Nat, bs.Pairwise (· < ·) → (∀ b ∈ bs, b ∈ leaders m) →
      Ascending (sweepTrace T bs i) := by
    intro bs
    induction bs with
    | nil => exact fun _ _ => List.Pairwise.nil
    | cons b bs ih =>
      intro hsorted hmem
      have hcons := pairwise_cons.mp hsorted
      have hrest := ih hcons.2 (fun c hc => hmem c (mem_cons_of_mem _ hc))
      have hb := hmem b (mem_cons_self ..)
      unfold sweepTrace at hrest ⊢
      rw [flatMap_cons]
      refine pairwise_append.mpr ⟨?_, hrest, ?_⟩
      · split
        · exact List.Pairwise.nil
        · exact ascending_blockTrace i _ hb
      intro e he f hf
      obtain ⟨c, hc, S, _, hfc⟩ := block_of_mem_sweepTrace hf
      have hlead := isLeader_of_mem (hmem c (mem_cons_of_mem _ hc))
      split at he
      · cases he
      · have hlow := (blockTrace_bounds (hmem c (mem_cons_of_mem _ hc)) hfc).1
        have hhigh := (blockTrace_bounds hb he).2 c hlead (hcons.1 c hc)
        exact hhigh.trans hlow
  exact hall _ (pairwise_leaders m) (fun b hb => hb)

/-- The entries: the local's type at the reached blocks, and what stores leave behind them. -/
theorem mem_sweepTrace {e : Nat × RType} (h : e ∈ sweepTrace T (leaders m) i) :
    localBefore T i e.1 = some e.2 ∨ ∃ pc S, e.1 = pc + 1 ∧ stateBefore T pc = some S ∧
        storedType (codeAt m pc) S i = some e.2 := by
  obtain ⟨b, hb, S, hS, he⟩ := block_of_mem_sweepTrace h
  have hlead := isLeader_of_mem hb
  obtain ⟨k, _, _, hpcs, _⟩ := blockPcs_eq (lt_of_mem_leaders hb)
  unfold blockTrace at he
  rw [hpcs] at he
  rcases mem_cons.mp he with rfl | he
  · left
    unfold localBefore stateBefore
    rw [blockOf_of_leader hlead, hS, Nat.sub_self]
    rfl
  · obtain ⟨j, hj, hpos, hstored⟩ := (mem_storeTrace k).mp he
    refine Or.inr ⟨b + j, flowTo b S j, hpos, ?_, hstored⟩
    unfold stateBefore
    rw [blockOf_add hlead hpcs hj, hS, Nat.add_sub_cancel_left]
    rfl

theorem valueAt_sweepTrace (hi : i < m.numLocals) {q : Nat} (hq : q < m.code.length) {t : RType}
    (ht : localBefore T i q = some t) (r : RType) :
    valueAt r (sweepTrace T (leaders m) i) q = t := by
  obtain ⟨k, hk, hend, hpcs, _⟩ := blockPcs_blockOf hq
  have hle := blockOf_le (m := m) q
  have hlead := isLeader_blockOf (m := m) q
  generalize hb : blockOf m q = b at hk hend hpcs hle hlead
  unfold localBefore stateBefore at ht
  rw [hb] at ht
  obtain ⟨S', hS', rfl⟩ := map_eq_some_iff.mp ht
  obtain ⟨S, hS, rfl⟩ := map_eq_some_iff.mp hS'
  have hsorted := pairwise_leaders m
  obtain ⟨front, back, hsplit⟩ := append_of_mem (mem_leaders (by omega) hlead)
  -- blocks behind this one start behind the instruction
  have hback : (sweepTrace T back i).filter (fun e => e.1 ≤ q) = [] := by
    rw [filter_eq_nil_iff]
    intro e he
    obtain ⟨c, hc, S', _, hec⟩ := block_of_mem_sweepTrace he
    have hcm : c ∈ leaders m := by
      rw [hsplit]
      exact mem_append_right _ (mem_cons_of_mem _ hc)
    rw [hsplit] at hsorted
    have hbc : b < c := (pairwise_cons.mp (pairwise_append.mp hsorted).2.1).1 c hc
    have hlow := (blockTrace_bounds hcm hec).1
    have hnext := block_le_next hpcs (isLeader_of_mem hcm) hbc
    simp only [decide_eq_true_eq]
    omega
  have hhere : (blockTrace i b S).filter (fun e => e.1 ≤ q) =
      (b, S.loc i) :: (storeTrace i (range' b k) S).filter (fun e => e.1 ≤ b + (q - b)) := by
    rw [show b + (q - b) = q by omega]
    unfold blockTrace
    rw [hpcs, filter_cons, if_pos (by simpa using hle)]
  have hblock := final_storeTrace hi k b (q - b) S (by omega)
  unfold valueAt
  rw [hsplit]
  have hparts : sweepTrace T (front ++ b :: back) i =
      sweepTrace T front i ++ (blockTrace i b S ++ sweepTrace T back i) := by
    unfold sweepTrace
    rw [flatMap_append, flatMap_cons, hS]
  rw [hparts, filter_append, filter_append, hhere, hback, append_nil, final_append, final, hblock]

end Trace

/-! ## The check -/

/-- Is an entry of the exception table looked at? -/
def Usable (m : Method) (h : ExceptionHandler) : Prop :=
  h.start < h.stop ∧ h.stop ≤ m.code.length ∧ h.handler < m.code.length

/-- Text of the diagnostic about a local. -/
def rangeText (i : Nat) : String :=
  "local l" ++ toString i ++ " changes type within protected range"

/-- A slot has two types at reachable instructions of a range; `f` is its type in front of an
instruction. -/
def TypesDiffer (f : Nat → Option RType) (h : ExceptionHandler) : Prop :=
  ∃ p q t u, h.start ≤ p ∧ p < h.stop ∧ h.start ≤ q ∧ q < h.stop ∧
    f p = some t ∧ f q = some u ∧ t ≠ u

/-- The range starts at a reachable instruction, and what a store in it leaves in the local is
what the next instruction finds there. -/
structure PlainRange (T : Nat → Option (FlowState m)) (h : ExceptionHandler) (i : Nat) : Prop where
  start : ∃ t, localBefore T i h.start = some t
  stores : ∀ pc S t, h.start ≤ pc → pc + 1 < h.stop → stateBefore T pc = some S →
    storedType (codeAt m pc) S i = some t → localBefore T i (pc + 1) = some t

/-- A local is reported for a range when a change point lies strictly inside. -/
theorem mem_stabilityDiags {T : Nat → Option (FlowState m)} {d : VerifyDiag} :
    d ∈ stabilityDiags m (changePoints T) ↔
      ∃ h ∈ m.handlers, Usable m h ∧ ∃ i, i < m.numLocals ∧ d.message = rangeText i ∧
        ∃ t rest, (changes (entryType T i) (sweepTrace T (leaders m) i)).dropWhile
          (fun c => c.1 ≤ h.start) = (d.pc, t) :: rest ∧ d.pc < h.stop := by
  unfold stabilityDiags
  rw [mem_flatMap]
  constructor
  · rintro ⟨h, hmem, hd⟩
    split at hd
    · cases hd
    rename_i hok
    obtain ⟨⟨l, i⟩, hli, hd⟩ := mem_flatMap.mp hd
    rw [List.mem_zipIdx_iff_getElem?] at hli
    obtain ⟨hlt, hl⟩ := List.getElem?_eq_some_iff.mp hli
    have hi : i < m.numLocals := by
      rw [changePoints, length_map, length_range] at hlt
      exact hlt
    simp only [changePoints, getElem_map, getElem_range] at hl
    dsimp only at hd
    subst hl
    split at hd
    · rename_i pc t rest heq
      split at hd
      · rename_i hstop
        rw [mem_singleton] at hd
        subst hd
        exact ⟨h, hmem, ⟨by omega, by omega, by omega⟩, i, hi, rfl, t, rest, heq, hstop⟩
      · cases hd
    · cases hd
  · rintro ⟨h, hmem, ⟨hrange, hstop, hhandler⟩, i, hi, hmsg, t, rest, heq, hlt⟩
    refine ⟨h, hmem, ?_⟩
    rw [if_neg (by omega)]
    refine mem_flatMap.mpr ⟨(changes (entryType T i) (sweepTrace T (leaders m) i), i), ?_, ?_⟩
    · rw [List.mem_zipIdx_iff_getElem?, List.getElem?_eq_some_iff]
      refine ⟨by rw [changePoints, length_map, length_range]; exact hi, ?_⟩
      simp only [changePoints, getElem_map, getElem_range]
    dsimp only
    rw [heq]
    dsimp only
    rw [if_pos hlt, mem_singleton]
    obtain ⟨pc, message⟩ := d
    rw [show message = rangeText i from hmsg]
    rfl

section Check

variable {T : Nat → Option (FlowState m)} {h : ExceptionHandler} {i : Nat}

/-- Where no entry of the trace in a range differs from its first value, no type does. -/
theorem exists_entry_of_differ (hi : i < m.numLocals) (husable : Usable m h)
    (hdiff : TypesDiffer (localBefore T i) h) (r : RType) :
    ∃ e ∈ sweepTrace T (leaders m) i, h.start < e.1 ∧ e.1 < h.stop ∧
      e.2 ≠ valueAt r (sweepTrace T (leaders m) i) h.start := by
  obtain ⟨p, q, t, u, hp, hp', hq, hq', ht, hu, hne⟩ := hdiff
  obtain ⟨_, hcode, _⟩ := husable
  by_contra hcon
  have hconst : ∀ e ∈ sweepTrace T (leaders m) i, h.start < e.1 → e.1 < h.stop →
      e.2 = valueAt r (sweepTrace T (leaders m) i) h.start := by
    intro e he hlow hhigh
    by_contra hdiffer
    exact hcon ⟨e, he, hlow, hhigh, hdiffer⟩
  have hvalue : ∀ x y, h.start ≤ x → x < h.stop → localBefore T i x = some y →
      valueAt r (sweepTrace T (leaders m) i) h.start = y := by
    intro x y hx hx' hy
    rw [← valueAt_of_const ascending_sweepTrace hx
      (fun e he hlow hhigh => hconst e he hlow (by omega))]
    exact valueAt_sweepTrace hi (by omega) hy r
  exact hne ((hvalue p t hp hp' ht).symm.trans (hvalue q u hq hq' hu))

theorem differ_of_entry (hi : i < m.numLocals) (husable : Usable m h)
    (hplain : PlainRange T h i) {r : RType} {e : Nat × RType}
    (he : e ∈ sweepTrace T (leaders m) i) (hlow : h.start < e.1) (hhigh : e.1 < h.stop)
    (hne : e.2 ≠ valueAt r (sweepTrace T (leaders m) i) h.start) :
    TypesDiffer (localBefore T i) h := by
  obtain ⟨hrange, hcode, _⟩ := husable
  obtain ⟨t, ht⟩ := hplain.start
  have hvalue := valueAt_sweepTrace hi (by omega : h.start < m.code.length) ht r
  rw [hvalue] at hne
  have hthere : localBefore T i e.1 = some e.2 := by
    rcases mem_sweepTrace he with hblock | ⟨pc, S, hpos, hS, hstored⟩
    · exact hblock
    · rw [hpos]
      exact hplain.stores pc S e.2 (by omega) (by omega) hS hstored
  exact ⟨h.start, e.1, t, e.2, le_refl _, hrange, le_of_lt hlow, hhigh, ht, hthere, Ne.symm hne⟩

end Check

/-- What the check of the ranges reports about final states. -/
structure RangeLaw (T : Nat → Option (FlowState m)) (diags : List VerifyDiag) : Prop where
  differ : ∀ h ∈ m.handlers, Usable m h → ∀ i, i < m.numLocals → TypesDiffer (localBefore T i) h →
    ∃ d ∈ diags, d.message = rangeText i ∧ h.start < d.pc ∧ d.pc < h.stop
  only : ∀ d ∈ diags, ∃ h ∈ m.handlers, Usable m h ∧ ∃ i, i < m.numLocals ∧
    d.message = rangeText i ∧ h.start < d.pc ∧ d.pc < h.stop ∧
    (PlainRange T h i → TypesDiffer (localBefore T i) h)
  iff_of_plain : (∀ h ∈ m.handlers, Usable m h → ∀ i, i < m.numLocals → PlainRange T h i) →
    (diags ≠ [] ↔ ∃ h ∈ m.handlers, Usable m h ∧
      ∃ i, i < m.numLocals ∧ TypesDiffer (localBefore T i) h)

theorem rangeLaw_changePoints (T : Nat → Option (FlowState m)) :
    RangeLaw T (stabilityDiags m (changePoints T)) := by
  have hdiffer : ∀ h ∈ m.handlers, Usable m h → ∀ i, i < m.numLocals →
      TypesDiffer (localBefore T i) h →
      ∃ d ∈ stabilityDiags m (changePoints T), d.message = rangeText i ∧
        h.start < d.pc ∧ d.pc < h.stop := by
    intro h hmem husable i hi hdiff
    have hsorted : Ascending (sweepTrace T (leaders m) i) := ascending_sweepTrace
    obtain ⟨c, hc, hlow, hhigh⟩ := (exists_change_iff hsorted h.start h.stop).mpr
      (exists_entry_of_differ hi husable hdiff (entryType T i))
    obtain ⟨⟨pc, t⟩, rest, heq, hlt⟩ := (dropWhile_lt_iff (ascending_changes hsorted)
      h.start h.stop).mpr ⟨c, hc, hlow, hhigh⟩
    refine ⟨⟨pc, rangeText i⟩, ?_, rfl, ?_, hlt⟩
    · exact mem_stabilityDiags.mpr ⟨h, hmem, husable, i, hi, rfl, t, rest, heq, hlt⟩
    · have hhead := head?_dropWhile_not (fun c : Nat × RType => decide (c.1 ≤ h.start))
        (changes (entryType T i) (sweepTrace T (leaders m) i))
      rw [heq] at hhead
      simpa using hhead
  have honly : ∀ d ∈ stabilityDiags m (changePoints T), ∃ h ∈ m.handlers, Usable m h ∧
      ∃ i, i < m.numLocals ∧ d.message = rangeText i ∧ h.start < d.pc ∧ d.pc < h.stop ∧
        (PlainRange T h i → TypesDiffer (localBefore T i) h) := by
    intro d hd
    obtain ⟨h, hmem, husable, i, hi, hmsg, t, rest, heq, hlt⟩ := mem_stabilityDiags.mp hd
    have hsorted : Ascending (sweepTrace T (leaders m) i) := ascending_sweepTrace
    have hlow : h.start < d.pc := by
      have hhead := head?_dropWhile_not (fun c : Nat × RType => decide (c.1 ≤ h.start))
        (changes (entryType T i) (sweepTrace T (leaders m) i))
      rw [heq] at hhead
      simpa using hhead
    refine ⟨h, hmem, husable, i, hi, hmsg, hlow, hlt, fun hplain => ?_⟩
    have hchange := (dropWhile_lt_iff (ascending_changes hsorted) h.start h.stop).mp
      ⟨(d.pc, t), rest, heq, hlt⟩
    obtain ⟨e, he, helow, hehigh, hne⟩ :=
      (exists_change_iff hsorted h.start h.stop).mp hchange
    exact differ_of_entry hi husable hplain he helow hehigh hne
  refine ⟨hdiffer, honly, fun hplain => ⟨fun hne => ?_, ?_⟩⟩
  · obtain ⟨d, hd⟩ := exists_mem_of_ne_nil _ hne
    obtain ⟨h, hmem, husable, i, hi, _, _, _, hdiff⟩ := honly d hd
    exact ⟨h, hmem, husable, i, hi, hdiff (hplain h hmem husable i hi)⟩
  · rintro ⟨h, hmem, husable, i, hi, hdiff⟩ hnil
    obtain ⟨d, hd, _⟩ := hdiffer h hmem husable i hi hdiff
    rw [hnil] at hd
    cases hd

/-- **The protected ranges.**  A type check that stays within its budgets and has room for
diagnostics appends those of the ranges, and they follow the law for its final states. -/
theorem protectedRanges {m : Method} {ret : RetScan} {params : List RType}
    {diags : List VerifyDiag} {st₀ : Flow m} (hcode : 0 < m.code.length)
    (hseed : seededFlow m diags params = (st₀, true))
    (hsweep : (finalSweep ret (runWorklist (kOpBudget + 1) st₀)).flow.dead = false)
    (hroom : (finalSweep ret (runWorklist (kOpBudget + 1) st₀)).flow.diags.length < kMaxDiags) :
    typeCheck m ret params diags =
        addDiags (finalSweep ret (runWorklist (kOpBudget + 1) st₀)).flow.diags
          (stabilityDiags m (finalSweep ret (runWorklist (kOpBudget + 1) st₀)).bps) ∧
      RangeLaw (runWorklist (kOpBudget + 1) st₀).wl.inAt
        (stabilityDiags m (finalSweep ret (runWorklist (kOpBudget + 1) st₀)).bps) := by
  have halive : (runWorklist (kOpBudget + 1) st₀).dead = false := by
    rw [← not_eq_true]
    intro hdead
    unfold finalSweep at hsweep
    rw [sweepBlocks_of_dead hdead] at hsweep
    exact Bool.noConfusion (hdead.symm.trans hsweep)
  have hsame := (alive_of_runWorklist (kOpBudget + 1) halive).2
  have hroom₀ : st₀.diags.length < kMaxDiags := by
    rw [← hsame]
    by_contra hfull
    unfold finalSweep at hroom
    rw [sweepBlocks_of_full (by dsimp only; omega)] at hroom
    exact hfull hroom
  rcases seededFlow_spec hcode hseed with ⟨hok, _⟩ | ⟨_, _, _, hops, hrun, hwl⟩
  · cases hok
  have hstart : Worklist.Absorbs st₀.wl 0 (entryState m params) := by
    rw [hwl]
    exact (startWorklist_spec params hcode).2.2.2
  obtain ⟨_, _, hkeep⟩ :=
    runWorklist_spec (kOpBudget + 1) hrun (succ_pos _) (by omega) hroom₀ halive
  obtain ⟨S, hS, _⟩ := hkeep _ _ hstart
  obtain ⟨_, _, hranges⟩ := finalSweep_spec ⟨S, hS⟩ hsweep
  constructor
  · rw [typeCheck_eq, hseed]
    dsimp only
    unfold judge
    rw [halive, hsweep, if_neg Bool.false_ne_true, if_neg Bool.false_ne_true]
  · rw [hranges hroom]
    exact rangeLaw_changePoints _

/-! ## Ranges outside the plain case -/

def analysed (m : Method) : Flow m := runWorklist (kOpBudget + 1) (seededFlow m [] []).1

/-- Type of a register in front of a reachable instruction. -/
def regBefore (T : Nat → Option (FlowState m)) (r pc : Nat) : Option RType :=
  (stateBefore T pc).map fun S => S.reg r

/-- Some local or register that is typed at the entry of the handler has two types in its
range. -/
def KeptDiffers (T : Nat → Option (FlowState m)) (h : ExceptionHandler) : Prop :=
  (∃ i, i < m.numLocals ∧ localBefore T i h.handler ≠ some .bottom ∧
    TypesDiffer (localBefore T i) h) ∨
  ∃ r, r < m.numRegs ∧ regBefore T r h.handler ≠ some .bottom ∧ TypesDiffer (regBefore T r) h

/-- A local is an integer first and a float then, both inside the range. -/
def retyped : Method where
  name := "f"
  descriptor := "()V"
  flags := 0x0008
  numRegs := 3
  numLocals := 1
  code := [⟨.iconst, 1, 0, 0, 1⟩, ⟨.fconst, 2, 0, 0, 0⟩, ⟨.istore, 0, 1, 0, 0⟩,
    ⟨.fstore, 0, 2, 0, 0⟩, ⟨.returnVoid, 0, 0, 0, 0⟩, ⟨.returnVoid, 0, 0, 0, 0⟩]
  handlers := [⟨2, 5, 5, -1⟩]

/-- The range starts at an instruction that nothing reaches; the local has one type in it. -/
def unreachedStart : Method where
  name := "f"
  descriptor := "()V"
  flags := 0x0008
  numRegs := 2
  numLocals := 1
  code := [⟨.iconst, 1, 0, 0, 1⟩, ⟨.ifeq, 0, 1, 0, 5⟩, ⟨.istore, 0, 1, 0, 0⟩,
    ⟨.returnVoid, 0, 0, 0, 0⟩, ⟨.returnVoid, 0, 0, 0, 0⟩, ⟨.returnVoid, 0, 0, 0, 0⟩,
    ⟨.returnVoid, 0, 0, 0, 0⟩]
  handlers := [⟨4, 6, 6, -1⟩]

theorem not_typesDiffer {f : Nat → Option RType} {h : ExceptionHandler} {t : RType}
    (hf : ∀ p, p < h.stop → h.start ≤ p → f p = none ∨ f p = some t) : ¬ TypesDiffer f h := by
  rintro ⟨p, q, u, v, hp, hp', hq, hq', hu, hv, hne⟩
  rcases hf p hp' hp with hnone | ht
  · rw [hnone] at hu
    cases hu
  rcases hf q hq' hq with hnone | ht'
  · rw [hnone] at hv
    cases hv
  · rw [ht] at hu
    rw [ht'] at hv
    cases hu
    cases hv
    exact hne rfl

/-- The check is not about what the handler keeps, and it counts a range that starts in
unreachable code from what stood in front of it. -/
theorem not_keptDiffers_of_check :
    (¬ ∀ m : Method, stabilityDiags m (finalSweep ⟨true, .bottom⟩ (analysed m)).bps ≠ [] ↔
      ∃ h ∈ m.handlers, Usable m h ∧ KeptDiffers (analysed m).wl.inAt h) ∧
    ¬ ∀ m : Method, stabilityDiags m (finalSweep ⟨true, .bottom⟩ (analysed m)).bps ≠ [] ↔
      ∃ h ∈ m.handlers, Usable m h ∧ ∃ i, i < m.numLocals ∧
        TypesDiffer (localBefore (analysed m).wl.inAt i) h := by
  constructor
  · intro hall
    obtain ⟨h, hmem, _, hkept⟩ := (hall retyped).mp (by decide +kernel)
    rw [show retyped.handlers = [⟨2, 5, 5, -1⟩] from rfl, mem_singleton] at hmem
    subst hmem
    rcases hkept with ⟨i, hi, hkeep, _⟩ | ⟨r, hr, hkeep, hdiff⟩
    · have hbottom : ∀ i, i < 1 → localBefore (analysed retyped).wl.inAt i 5 = some .bottom := by
        decide +kernel
      exact hkeep (hbottom i hi)
    have hregs : ∀ r, r < 3 → r = 0 ∨
        regBefore (analysed retyped).wl.inAt r 5 = some .bottom := by
      decide +kernel
    rcases hregs r hr with rfl | hbottom
    · refine not_typesDiffer (t := .bottom) ?_ hdiff
      decide +kernel
    · exact hkeep hbottom
  · intro hall
    obtain ⟨h, hmem, _, i, hi, hdiff⟩ := (hall unreachedStart).mp (by decide +kernel)
    rw [show unreachedStart.handlers = [⟨4, 6, 6, -1⟩] from rfl, mem_singleton] at hmem
    subst hmem
    have hzero : i = 0 := by
      have hlt : i < 1 := hi
      omega
    subst hzero
    refine not_typesDiffer (t := .bottom) ?_ hdiff
    decide +kernel

/-- The retyped local, reported. -/
theorem protectedRanges_retyped : typeCheck retyped ⟨true, .bottom⟩ [] [] =
        addDiags (finalSweep ⟨true, .bottom⟩ (analysed retyped)).flow.diags
          (stabilityDiags retyped (finalSweep ⟨true, .bottom⟩ (analysed retyped)).bps) ∧
      RangeLaw (analysed retyped).wl.inAt
        (stabilityDiags retyped (finalSweep ⟨true, .bottom⟩ (analysed retyped)).bps) := by
  have hok : (seededFlow retyped [] []).2 = true := by decide +kernel
  exact protectedRanges (by decide) (by rw [← hok]) (by decide +kernel) (by decide +kernel)

end B2Compiler.Rbc
