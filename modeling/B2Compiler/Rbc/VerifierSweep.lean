import B2Compiler.Lib.ChangePoints
import B2Compiler.Rbc.VerifierFlow

/-!
# What the verifier reports

A type check that stays within its budgets reports the complaints about the instructions of the
visited blocks, in code order and in their final states, and behind them the verdict on the
protected ranges, which looks at the change points of a trace: the type of each local at every
block entry and behind every store.
-/

namespace B2Compiler.Rbc

open Lib Lib.ChangePoints List

theorem addDiags_append (ds as bs : List VerifyDiag) :
    addDiags ds (as ++ bs) = addDiags (addDiags ds as) bs :=
  foldl_append

theorem addDiags_full {ds : List VerifyDiag} (h : ds.length ≥ kMaxDiags) (as : List VerifyDiag) :
    addDiags ds as = ds := by
  induction as with
  | nil => rfl
  | cons a as ih =>
    have hhead : addDiag ds a = ds := by
      unfold addDiag
      rw [if_pos h]
    show addDiags (addDiag ds a) as = ds
    rw [hhead, ih]

section

variable {m : Method}

/-! ## Complaints and traces -/

def runMsgs (ret : RetScan) : List Nat → FlowState m → List VerifyDiag
  | [], _ => []
  | pc :: pcs, S =>
    (checkIns ret pc (codeAt m pc) S).map (VerifyDiag.mk pc) ++
      runMsgs ret pcs (stepIns (codeAt m pc) S)

/-- Complaints about the blocks of a list that have a state. -/
def sweepMsgs (ret : RetScan) (T : Nat → Option (FlowState m)) (bs : List Nat) : List VerifyDiag :=
  bs.flatMap fun b =>
    match T b with
    | none => []
    | some S => runMsgs ret (blockPcs m b) S

/-- The type an instruction stores into a local. -/
def storedType (ins : Ins) (S : FlowState m) (i : Nat) : Option RType :=
  if operandsOk m ins ∧ (info ins.op).sig = .slotReg ∧ ins.immIdx < m.numLocals ∧ ins.immIdx = i
    then some (S.reg ins.aReg) else none

/-- The stores into a local along a run of instructions, each at the pc behind it. -/
def storeTrace (i : Nat) : List Nat → FlowState m → List (Nat × RType)
  | [], _ => []
  | pc :: pcs, S =>
    ((storedType (codeAt m pc) S i).map fun t => (pc + 1, t)).toList ++
      storeTrace i pcs (stepIns (codeAt m pc) S)

/-- The types of a local at the entry of a block and behind the stores in it. -/
def blockTrace (i b : Nat) (S : FlowState m) : List (Nat × RType) :=
  (b, S.loc i) :: storeTrace i (blockPcs m b) S

/-- The trace of a local over the blocks of a list that have a state. -/
def sweepTrace (T : Nat → Option (FlowState m)) (bs : List Nat) (i : Nat) : List (Nat × RType) :=
  bs.flatMap fun b =>
    match T b with
    | none => []
    | some S => blockTrace i b S

/-! ## Recording -/

structure Sized (sw : Sweep m) : Prop where
  running : sw.running.length = m.numLocals
  bps : sw.bps.length = m.numLocals

/-- `sw'` is `sw` with the entries of a trace recorded, and neither gave up. -/
structure Recorded (sw sw' : Sweep m) (es : Nat → List (Nat × RType)) : Prop where
  alive : sw.flow.dead = false
  wl : sw'.flow.wl = sw.flow.wl
  sized : Sized sw'
  running : ∀ i, sw'.running.getD i .bottom = final (sw.running.getD i .bottom) (es i)
  bps : ∀ i, sw'.bps.getD i [] = sw.bps.getD i [] ++ changes (sw.running.getD i .bottom) (es i)

theorem Recorded.refl {sw : Sweep m} (h : sw.flow.dead = false) (hsized : Sized sw) :
    Recorded sw sw (fun _ => []) :=
  ⟨h, rfl, hsized, fun _ => rfl, fun i => (append_nil _).symm⟩

theorem Recorded.trans {sw sw' sw'' : Sweep m} {es fs : Nat → List (Nat × RType)}
    (h : Recorded sw sw' es) (h' : Recorded sw' sw'' fs) :
    Recorded sw sw'' (fun i => es i ++ fs i) where
  alive := h.alive
  wl := h'.wl.trans h.wl
  sized := h'.sized
  running i := by rw [h'.running, h.running, final_append]
  bps i := by rw [h'.bps, h.bps, h.running, changes_append, append_assoc]

theorem sized_record {sw : Sweep m} (h : Sized sw) (i pc : Nat) (t : RType) :
    Sized (sw.record i pc t) := by
  unfold Sweep.record
  split
  · exact h
  have hset : (sw.running.set i t).length = m.numLocals := by
    rw [length_set]
    exact h.running
  dsimp only
  split
  · exact ⟨hset, by rw [length_modify]; exact h.bps⟩
  · exact ⟨hset, h.bps⟩

theorem recorded_record {sw : Sweep m} {i pc : Nat} {t : RType}
    (h : (sw.record i pc t).flow.dead = false) (hsized : Sized sw) (hi : i < m.numLocals) :
    Recorded sw (sw.record i pc t) (fun j => if j = i then [(pc, t)] else []) ∧
      (sw.record i pc t).flow.diags = sw.flow.diags := by
  have hsized' := sized_record hsized i pc t
  unfold Sweep.record at h hsized' ⊢
  by_cases hsame : sw.running.getD i .bottom = t
  · rw [if_pos hsame] at h hsized' ⊢
    refine ⟨⟨h, rfl, hsized', fun j => ?_, fun j => ?_⟩, rfl⟩
    · split
      · rename_i hj
        rw [hj]
        exact hsame
      · rfl
    · split
      · rename_i hj
        rw [hj, changes, if_pos hsame, changes, append_nil]
      · rw [changes, append_nil]
  · rw [if_neg hsame] at h hsized' ⊢
    dsimp only at h hsized' ⊢
    split at h
    · rename_i hroom
      rw [if_pos hroom] at hsized' ⊢
      refine ⟨⟨h, rfl, hsized', fun j => ?_, fun j => ?_⟩, rfl⟩
      · dsimp only
        rw [getD_eq_getElem?_getD, getElem?_set]
        by_cases hj : j = i
        · subst hj
          rw [if_pos rfl, if_pos rfl, if_pos (by rw [hsized.running]; exact hi)]
          rfl
        · rw [if_neg (Ne.symm hj), if_neg hj, ← getD_eq_getElem?_getD]
          rfl
      · dsimp only
        rw [getD_eq_getElem?_getD]
        by_cases hj : j = i
        · subst hj
          have hlt : j < sw.bps.length := by
            rw [hsized.bps]
            exact hi
          rw [getElem?_modify_eq, if_pos rfl, changes, if_neg hsame,
            getD_eq_getElem?_getD, getElem?_eq_getElem hlt]
          rfl
        · rw [getElem?_modify_ne _ _ (Ne.symm hj), if_neg hj, changes, append_nil,
            getD_eq_getElem?_getD]
    · cases h

/-- The entry of a block, for the first `n` locals. -/
theorem recorded_recordEntry {sw : Sweep m} {pc : Nat} {S : FlowState m} (hsized : Sized sw)
    (n : Nat) (hn : n ≤ m.numLocals) (h : (sw.recordEntry pc S n).flow.dead = false) :
    Recorded sw (sw.recordEntry pc S n) (fun j => if j < n then [(pc, S.loc j)] else []) ∧
      (sw.recordEntry pc S n).flow.diags = sw.flow.diags := by
  induction n with
  | zero =>
    refine ⟨⟨h, rfl, hsized, fun j => ?_, fun j => ?_⟩, rfl⟩
    · rw [if_neg (Nat.not_lt_zero j)]
      rfl
    · rw [if_neg (Nat.not_lt_zero j)]
      exact (append_nil _).symm
  | succ n ih =>
    rw [Sweep.recordEntry] at h ⊢
    by_cases hdead : (sw.recordEntry pc S n).flow.dead = true
    · rw [if_pos hdead] at h
      exact absurd h (by rw [hdead]; decide)
    rw [if_neg hdead] at h ⊢
    obtain ⟨hrec, hdiags⟩ := ih (by omega) (Bool.eq_false_iff.mpr hdead)
    obtain ⟨hlast, hdiags'⟩ := recorded_record h hrec.sized (by omega)
    refine ⟨?_, hdiags'.trans hdiags⟩
    have hall := hrec.trans hlast
    have hentries : (fun j => (if j < n then [(pc, S.loc j)] else []) ++
        (if j = n then [(pc, S.loc n)] else [])) =
        fun j => if j < n + 1 then [(pc, S.loc j)] else [] := by
      funext j
      rcases Nat.lt_trichotomy j n with hj | hj | hj
      · rw [if_pos hj, if_neg (by omega), if_pos (by omega), append_nil]
      · rw [if_neg (by omega), if_pos hj, if_pos (by omega), nil_append, hj]
      · rw [if_neg (by omega), if_neg (by omega), if_neg (by omega), nil_append]
    rw [hentries] at hall
    exact hall

variable {ret : RetScan} {bs : List Nat}

theorem sized_sweepBlock {pcs : List Nat} :
    ∀ {S : FlowState m} {sw : Sweep m}, Sized sw → Sized (sweepBlock ret pcs S sw) := by
  induction pcs with
  | nil => exact fun h => h
  | cons pc pcs ih =>
    intro S sw h
    rw [sweepBlock]
    split
    · exact h
    dsimp only
    split
    · exact ⟨h.running, h.bps⟩
    · apply ih
      split
      · apply sized_record
        exact ⟨h.running, h.bps⟩
      · exact ⟨h.running, h.bps⟩

theorem recorded_sweepBlock {pcs : List Nat} : ∀ {S : FlowState m} {sw : Sweep m}, Sized sw →
      (sweepBlock ret pcs S sw).flow.dead = false →
      Recorded sw (sweepBlock ret pcs S sw)
        (fun i => if i < m.numLocals then storeTrace i pcs S else []) ∧
      (sweepBlock ret pcs S sw).flow.diags = addDiags sw.flow.diags (runMsgs ret pcs S) := by
  induction pcs with
  | nil =>
    intro S sw hsized h
    refine ⟨?_, rfl⟩
    have hnil : (fun i => if i < m.numLocals then storeTrace i [] S else []) =
        fun _ => ([] : List (Nat × RType)) := by
      funext i
      split <;> rfl
    rw [hnil]
    exact .refl h hsized
  | cons pc pcs ih =>
    intro S sw hsized h
    rw [sweepBlock] at h ⊢
    by_cases hdead : sw.flow.dead = true
    · rw [if_pos hdead] at h
      exact absurd h (by rw [hdead]; decide)
    rw [if_neg hdead] at h ⊢
    dsimp only at h ⊢
    by_cases htick : (sw.flow.tick 1).dead = true
    · rw [if_pos htick] at h
      exact absurd h (by rw [htick]; decide)
    rw [if_neg htick] at h ⊢
    obtain ⟨halive, hcount, _⟩ := Flow.alive_of_tick (Bool.eq_false_iff.mpr htick)
    rw [hcount] at h ⊢
    dsimp only at h ⊢
    -- the sweep behind the check of this instruction
    generalize hchecked : ({ sw with
        flow := { sw.flow with
          ops := sw.flow.ops + 1
          diags := addDiags sw.flow.diags
            ((checkIns ret pc (codeAt m pc) S).map (VerifyDiag.mk pc)) } } : Sweep m) = swc
      at h ⊢
    have hc : Recorded sw swc (fun _ => []) := by
      subst hchecked
      exact ⟨halive, rfl, ⟨hsized.running, hsized.bps⟩, fun _ => rfl, fun i => (append_nil _).symm⟩
    have hcdiags : swc.flow.diags = addDiags sw.flow.diags
        ((checkIns ret pc (codeAt m pc) S).map (VerifyDiag.mk pc)) := by
      subst hchecked
      rfl
    by_cases hstore : operandsOk m (codeAt m pc) = true ∧
        (info (codeAt m pc).op).sig = .slotReg ∧ (codeAt m pc).immIdx < m.numLocals
    · rw [if_pos hstore] at h ⊢
      obtain ⟨hrest, hdiags⟩ := ih (sized_record hc.sized _ _ _) h
      obtain ⟨hrec, hrdiags⟩ := recorded_record hrest.alive hc.sized hstore.2.2
      refine ⟨?_, ?_⟩
      · have hall := hc.trans (hrec.trans hrest)
        have hentries : (fun i => [] ++ ((if i = (codeAt m pc).immIdx then
              [(pc + 1, S.reg (codeAt m pc).aReg)] else []) ++
            (if i < m.numLocals then storeTrace i pcs (stepIns (codeAt m pc) S) else []))) =
            fun i => if i < m.numLocals then storeTrace i (pc :: pcs) S else [] := by
          funext i
          rw [nil_append]
          by_cases hi : i < m.numLocals
          · rw [if_pos hi, if_pos hi, storeTrace]
            by_cases heq : i = (codeAt m pc).immIdx
            · have hstored : storedType (codeAt m pc) S i = some (S.reg (codeAt m pc).aReg) :=
                if_pos ⟨hstore.1, hstore.2.1, hstore.2.2, heq.symm⟩
              rw [if_pos heq, hstored]
              rfl
            · have hstored : storedType (codeAt m pc) S i = none :=
                if_neg (fun hand => heq hand.2.2.2.symm)
              rw [if_neg heq, hstored]
              rfl
          · have hne : i ≠ (codeAt m pc).immIdx := by
              have hlt := hstore.2.2
              omega
            rw [if_neg hi, if_neg hi, if_neg hne, nil_append]
        rw [hentries] at hall
        exact hall
      · rw [hdiags, hrdiags, hcdiags, runMsgs, addDiags_append]
    · rw [if_neg hstore] at h ⊢
      obtain ⟨hrest, hdiags⟩ := ih hc.sized h
      refine ⟨?_, ?_⟩
      · have hall := hc.trans hrest
        have hentries : (fun i => [] ++
            (if i < m.numLocals then storeTrace i pcs (stepIns (codeAt m pc) S) else [])) =
            fun i => if i < m.numLocals then storeTrace i (pc :: pcs) S else [] := by
          funext i
          have hstored : storedType (codeAt m pc) S i = none :=
            if_neg (fun hand => hstore ⟨hand.1, hand.2.1, hand.2.2.1⟩)
          rw [nil_append, storeTrace, hstored]
          rfl
        rw [hentries] at hall
        exact hall
      · rw [hdiags, hcdiags, runMsgs, addDiags_append]

/-- The blocks of a list.  A full list of diagnostics ends the sweep early. -/
theorem recorded_sweepBlocks :
    ∀ {sw : Sweep m}, Sized sw → (sweepBlocks ret bs sw).flow.dead = false →
      sw.flow.dead = false ∧ (sweepBlocks ret bs sw).flow.wl = sw.flow.wl ∧
      (sweepBlocks ret bs sw).flow.diags =
        addDiags sw.flow.diags (sweepMsgs ret sw.flow.wl.inAt bs) ∧
      (m.handlers ≠ [] → (sweepBlocks ret bs sw).flow.diags.length < kMaxDiags →
        Recorded sw (sweepBlocks ret bs sw)
          (fun i => if i < m.numLocals then sweepTrace sw.flow.wl.inAt bs i else [])) := by
  induction bs with
  | nil =>
    intro sw hsized h
    refine ⟨h, rfl, rfl, fun _ _ => ?_⟩
    have hnil : (fun i => if i < m.numLocals then sweepTrace sw.flow.wl.inAt [] i else []) =
        fun _ => ([] : List (Nat × RType)) := by
      funext i
      split <;> rfl
    rw [hnil]
    exact .refl h hsized
  | cons b bs ih =>
    intro sw hsized h
    rw [sweepBlocks] at h ⊢
    by_cases hstop : sw.flow.dead = true ∨ sw.flow.diags.length ≥ kMaxDiags
    · rw [if_pos hstop] at h ⊢
      rcases hstop with hdead | hfull
      · exact absurd h (by rw [hdead]; decide)
      · exact ⟨h, rfl, (addDiags_full hfull _).symm, fun _ hroom => absurd hfull (by omega)⟩
    rw [if_neg hstop] at h ⊢
    cases hin : sw.flow.wl.inAt b with
    | none =>
      rw [hin] at h
      obtain ⟨halive, hwl, hdiags, hrec⟩ := ih hsized h
      have hmsgs : sweepMsgs ret sw.flow.wl.inAt (b :: bs) = sweepMsgs ret sw.flow.wl.inAt bs := by
        unfold sweepMsgs
        rw [flatMap_cons, hin]
        rfl
      have htrace : ∀ i, sweepTrace sw.flow.wl.inAt (b :: bs) i =
          sweepTrace sw.flow.wl.inAt bs i := by
        intro i
        unfold sweepTrace
        rw [flatMap_cons, hin]
        rfl
      refine ⟨halive, hwl, by rw [hmsgs]; exact hdiags, fun hhandlers hroom => ?_⟩
      simp only [htrace]
      exact hrec hhandlers hroom
    | some S =>
      rw [hin] at h
      dsimp only at h ⊢
      have hmsgs : sweepMsgs ret sw.flow.wl.inAt (b :: bs) =
          runMsgs ret (blockPcs m b) S ++ sweepMsgs ret sw.flow.wl.inAt bs := by
        unfold sweepMsgs
        rw [flatMap_cons, hin]
      have htrace : ∀ i, sweepTrace sw.flow.wl.inAt (b :: bs) i =
          blockTrace i b S ++ sweepTrace sw.flow.wl.inAt bs i := by
        intro i
        unfold sweepTrace
        rw [flatMap_cons, hin]
      generalize hentry : (if m.handlers = [] then sw else sw.recordEntry b S m.numLocals) = swe
        at h ⊢
      by_cases hdead : swe.flow.dead = true
      · rw [if_pos hdead] at h
        exact absurd h (by rw [hdead]; decide)
      rw [if_neg hdead] at h ⊢
      -- what the entry of the block leaves
      have he : Recorded sw swe (fun j => if m.handlers ≠ [] ∧ j < m.numLocals
          then [(b, S.loc j)] else []) ∧ swe.flow.diags = sw.flow.diags := by
        have halive : swe.flow.dead = false := Bool.eq_false_iff.mpr hdead
        subst hentry
        by_cases hnil : m.handlers = []
        · rw [if_pos hnil] at halive ⊢
          have hempty : (fun j => if m.handlers ≠ [] ∧ j < m.numLocals
              then [(b, S.loc j)] else []) = fun _ => ([] : List (Nat × RType)) := by
            funext j
            exact if_neg (fun hand => hand.1 hnil)
          rw [hempty]
          exact ⟨.refl halive hsized, rfl⟩
        · rw [if_neg hnil] at halive ⊢
          have hboth : (fun j => if m.handlers ≠ [] ∧ j < m.numLocals
              then [(b, S.loc j)] else []) =
              fun j => if j < m.numLocals then [(b, S.loc j)] else [] := by
            funext j
            simp only [ne_eq, hnil, not_false_eq_true, true_and]
          rw [hboth]
          exact recorded_recordEntry hsized m.numLocals (Nat.le_refl _) halive
      obtain ⟨he, hediags⟩ := he
      have hblockSized : Sized (sweepBlock ret (blockPcs m b) S swe) :=
        sized_sweepBlock he.sized
      obtain ⟨hblockAlive, hwl, hdiags, hrec⟩ := ih hblockSized h
      obtain ⟨hb, hbdiags⟩ := recorded_sweepBlock he.sized hblockAlive
      have hwlBlock : (sweepBlock ret (blockPcs m b) S swe).flow.wl = sw.flow.wl :=
        hb.wl.trans he.wl
      rw [hwlBlock] at hwl hdiags hrec
      refine ⟨he.alive, hwl, ?_, fun hhandlers hroom => ?_⟩
      · rw [hdiags, hbdiags, hediags, hmsgs, addDiags_append]
      have hall := he.trans (hb.trans (hrec hhandlers hroom))
      have hentries : (fun i => (if m.handlers ≠ [] ∧ i < m.numLocals
          then [(b, S.loc i)] else []) ++
          ((if i < m.numLocals then storeTrace i (blockPcs m b) S else []) ++
          (if i < m.numLocals then sweepTrace sw.flow.wl.inAt bs i else []))) =
          fun i => if i < m.numLocals then sweepTrace sw.flow.wl.inAt (b :: bs) i
            else [] := by
        funext i
        by_cases hi : i < m.numLocals
        · rw [if_pos ⟨hhandlers, hi⟩, if_pos hi, if_pos hi, if_pos hi, htrace, blockTrace]
          rfl
        · rw [if_neg (fun hand => hi hand.2), if_neg hi, if_neg hi, if_neg hi]
          rfl
      rw [hentries] at hall
      exact hall

/-! ## The verdict -/

/-- First instructions of the blocks, in code order. -/
def leaders (m : Method) : List Nat := (range m.code.length).filter (isLeader m)

/-- Type of a local in front of a trace: the one it has at the entry. -/
def entryType (T : Nat → Option (FlowState m)) (i : Nat) : RType :=
  ((T 0).map fun S => S.loc i).getD .bottom

def changePoints (T : Nat → Option (FlowState m)) : List (List (Nat × RType)) :=
  (range m.numLocals).map fun i => changes (entryType T i) (sweepTrace T (leaders m) i)

/-- Everything the type check has to say about states in front of the blocks. -/
def verdict (ret : RetScan) (T : Nat → Option (FlowState m)) : List VerifyDiag :=
  sweepMsgs ret T (leaders m) ++ stabilityDiags m (changePoints T)

/-- The sweep over the final states of an analysis. -/
def finalSweep (ret : RetScan) (st : Flow m) : Sweep m :=
  sweepBlocks ret (leaders m)
    ⟨st, ((st.wl.inAt 0).map FlowState.locals).getD [], replicate m.numLocals [], 0⟩

/-- What follows the worklist loop. -/
def judge (ret : RetScan) (st : Flow m) : List VerifyDiag :=
  if st.dead then st.diags
  else if (finalSweep ret st).flow.dead then (finalSweep ret st).flow.diags
  else addDiags (finalSweep ret st).flow.diags (stabilityDiags m (finalSweep ret st).bps)

theorem typeCheck_eq (ret : RetScan) (params : List RType) (diags : List VerifyDiag) :
    typeCheck m ret params diags =
      match seededFlow m diags params with
      | (st, false) => st.diags
      | (st, true) => judge ret (runWorklist (kOpBudget + 1) st) := rfl

theorem lt_of_mem_leaders {b : Nat} (h : b ∈ leaders m) : b < m.code.length :=
  mem_range.mp (mem_filter.mp h).1

theorem sweepBlocks_of_full {sw : Sweep m} (h : sw.flow.diags.length ≥ kMaxDiags) :
    sweepBlocks ret bs sw = sw := by
  cases bs with
  | nil => rfl
  | cons b bs =>
    rw [sweepBlocks]
    exact if_pos (Or.inr h)

theorem sweepBlocks_of_dead {sw : Sweep m} (h : sw.flow.dead = true) :
    sweepBlocks ret bs sw = sw := by
  cases bs with
  | nil => rfl
  | cons b bs =>
    rw [sweepBlocks]
    exact if_pos (Or.inl h)

/-- A sweep within its budgets has reported on the instructions, and unless the list is full it
has seen every change point that the check of the ranges needs. -/
theorem finalSweep_spec {st : Flow m} (hentry : ∃ S, st.wl.inAt 0 = some S)
    (h : (finalSweep ret st).flow.dead = false) : st.dead = false ∧ (finalSweep ret st).flow.diags =
        addDiags st.diags (sweepMsgs ret st.wl.inAt (leaders m)) ∧
      ((finalSweep ret st).flow.diags.length < kMaxDiags →
        stabilityDiags m (finalSweep ret st).bps = stabilityDiags m (changePoints st.wl.inAt)) := by
  obtain ⟨S, hS⟩ := hentry
  have hsized : Sized (⟨st, ((st.wl.inAt 0).map FlowState.locals).getD [],
      replicate m.numLocals [], 0⟩ : Sweep m) := by
    rw [hS]
    exact ⟨S.locals_size, length_replicate⟩
  obtain ⟨halive, _, hdiags, hrec⟩ := recorded_sweepBlocks hsized h
  refine ⟨halive, hdiags, fun hroom => ?_⟩
  by_cases hhandlers : m.handlers = []
  · -- without a handler there is no range to look at
    unfold stabilityDiags
    rw [hhandlers]
    rfl
  have hfinal : Recorded _ (finalSweep ret st) _ := hrec hhandlers hroom
  have hbps : (finalSweep ret st).bps = changePoints st.wl.inAt := by
    apply ext_getElem
    · rw [hfinal.sized.bps, changePoints, length_map, length_range]
    intro i hi hi'
    have hlt : i < m.numLocals := by
      rw [← hfinal.sized.bps]
      exact hi
    have hget := hfinal.bps i
    dsimp only at hget
    rw [if_pos hlt, getD_eq_getElem?_getD, getElem?_eq_getElem hi, hS] at hget
    have hempty : (replicate m.numLocals ([] : List (Nat × RType))).getD i [] = [] := by
      rw [getD_eq_getElem?_getD, getElem?_replicate, if_pos hlt]
      rfl
    rw [hempty] at hget
    simp only [changePoints, getElem_map, getElem_range, entryType, hS]
    exact hget
  rw [hbps]

/-- A sweep within its budgets reports what is to be said about the states, and nothing else. -/
theorem judge_of_alive {st : Flow m} (hentry : ∃ S, st.wl.inAt 0 = some S)
    (h : (finalSweep ret st).flow.dead = false) :
    judge ret st = addDiags st.diags (verdict ret st.wl.inAt) := by
  obtain ⟨halive, hsweep, hranges⟩ := finalSweep_spec hentry h
  unfold judge verdict
  rw [halive, h, if_neg Bool.false_ne_true, if_neg Bool.false_ne_true, addDiags_append, ← hsweep]
  by_cases hfull : (finalSweep ret st).flow.diags.length ≥ kMaxDiags
  · rw [addDiags_full hfull, addDiags_full hfull]
  · rw [hranges (by omega)]

/-- Nothing to say about a run of instructions: every one passes in its state. -/
theorem checks_of_runMsgs (k : Nat) :
    ∀ {b : Nat} {S : FlowState m}, runMsgs ret (range' b k) S = [] →
      ∀ i, i < k → checkIns ret (b + i) (codeAt m (b + i)) (flowTo b S i) = [] := by
  induction k with
  | zero => exact fun _ i hi => absurd hi (Nat.not_lt_zero i)
  | succ k ih =>
    intro b S h i hi
    rw [range'_succ, runMsgs, append_eq_nil_iff] at h
    cases i with
    | zero => exact map_eq_nil_iff.mp h.1
    | succ i =>
      rw [flowTo_step, show b + (i + 1) = b + 1 + i by omega]
      exact ih h.2 i (by omega)

end

theorem fixpoint_of_typeCheck {m : Method} {ret : RetScan} {params : List RType}
    {diags : List VerifyDiag} (hcode : 0 < m.code.length)
    (h : typeCheck m ret params diags = []) :
    diags = [] ∧ ∃ fix : Fixpoint m ret params,
      fix.wl = (runWorklist (kOpBudget + 1) (seededFlow m diags params).1).wl := by
  rw [typeCheck_eq] at h
  obtain ⟨⟨st₀, ok⟩, hseed⟩ : ∃ r, seededFlow m diags params = r := ⟨_, rfl⟩
  rw [hseed] at h
  rcases seededFlow_spec hcode hseed with
    ⟨rfl, hdiags⟩ | ⟨rfl, hdiags, hdead, hops, hrun, hwl⟩
  · exact absurd h hdiags
  dsimp only at h
  have hentry : Worklist.Absorbs st₀.wl 0 (entryState m params) := by
    rw [hwl]
    exact (startWorklist_spec params hcode).2.2.2
  have hrep₀ : st₀.Reported := fun hd => absurd hd (by rw [hdead]; decide)
  have hrep := reported_runWorklist (kOpBudget + 1) hrep₀
  generalize hst : runWorklist (kOpBudget + 1) st₀ = st at h hrep
  have halive : st.dead = false := by
    rw [← Bool.not_eq_true]
    intro hd
    unfold judge at h
    rw [if_pos hd] at h
    exact hrep hd h
  have hsweep : (finalSweep ret st).flow.dead = false := by
    rw [← Bool.not_eq_true]
    intro hd
    have hswRep : (finalSweep ret st).flow.Reported := reported_sweepBlocks hrep
    unfold judge at h
    rw [if_neg (Bool.eq_false_iff.mp halive), if_pos hd] at h
    exact hswRep hd h
  subst hst
  obtain ⟨_, hsame⟩ := alive_of_runWorklist (kOpBudget + 1) halive
  have hroom : st₀.diags.length < kMaxDiags := by
    by_contra hfull
    have hfull' : (runWorklist (kOpBudget + 1) st₀).diags.length ≥ kMaxDiags := by
      rw [hsame]
      omega
    -- nothing is swept and the diagnostics stay
    have hstop : finalSweep ret (runWorklist (kOpBudget + 1) st₀) =
        ⟨runWorklist (kOpBudget + 1) st₀, _, _, 0⟩ :=
      sweepBlocks_of_full hfull'
    unfold judge at h
    rw [if_neg (Bool.eq_false_iff.mp halive), if_neg (Bool.eq_false_iff.mp hsweep), hstop,
      addDiags_full hfull'] at h
    rw [hsame] at h
    rw [h] at hfull
    exact hfull (by decide)
  obtain ⟨hrun', hempty, hkeep⟩ :=
    runWorklist_spec (kOpBudget + 1) hrun (Nat.succ_pos _) (by omega) hroom halive
  obtain ⟨S₀, hS₀, _⟩ := hkeep _ _ hentry
  rw [judge_of_alive ⟨S₀, hS₀⟩ hsweep] at h
  obtain ⟨hnil, hverdict⟩ := addDiags_eq_nil h
  refine ⟨hdiags.symm.trans (hsame.symm.trans hnil),
    ⟨(runWorklist (kOpBudget + 1) st₀).wl, hkeep _ _ hentry, ?_, ?_⟩, by rw [hseed]⟩
  · intro b S hS
    exact hrun'.settled b S hS (by rw [hempty]; exact not_mem_nil)
  · intro b S hS hb hlead k hpcs
    unfold verdict at hverdict
    have hmsgs := flatMap_eq_nil_iff.mp (append_eq_nil_iff.mp hverdict).1 b
      (mem_filter.mpr ⟨mem_range.mpr hb, hlead⟩)
    rw [hS, hpcs] at hmsgs
    exact checks_of_runMsgs k hmsgs

end B2Compiler.Rbc
