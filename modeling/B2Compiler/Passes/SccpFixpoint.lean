import B2Compiler.Passes.SccpMono

/-!
# What the constant propagation has established when it stops

The invariant of the two work lists.  A value that is not pending agrees with its
transfer function, or still waits for an operand; a control node that is not pending
has marked everything it passes control to; a phi that is not pending lies below
every operand that arrives on an edge control takes.  One lemma covers lowering a
value, one covers passing control on; seeding, propagation and completion are runs
of the two, and when the lists are empty nothing is pending.
-/

namespace B2Compiler.Passes

open Interp List
open Ir
open Lib

/-- The value a node starts with. -/
def seedVal (g : Graph) (n : NodeId) : Flat ConstVal :=
  if g.live n then
    match constOf g n with
    | some c => .const c
    | none =>
      if n = Graph.startNode then .top
      else if isEvalK (g.kind n) || g.kind n == .phi then .top
      else .bot
  else .top

/-- The invariant, with the pending control and value nodes as sets. -/
structure Inv (g : Graph) (F : FloatOps) (s : Sccp) (C S : NodeId → Prop) : Prop where
  nullSourced : NullSourced g s
  /-- Nodes without a transfer function keep their seed. -/
  seeded : ∀ n, ¬ Evaluable g n → s.val n = seedVal g n
  floor : ∀ n, Evaluable g n → s.val n = .bot ∨ evalFloor g F s n ≤ s.val n
  evalDone : ∀ n, Evaluable g n → g.kind n ≠ .phi → ¬ S n →
    s.val n = .bot ∨ s.val n = s.evalNode g F n ∨ s.evalNode g F n = .top
  phiDone : ∀ p r pred j, g.live p = true → g.kind p = .phi → ¬ S p →
    g.input p 0 = some r → g.live r = true → isRegionLikeK (g.kind r) = true → ¬ C r →
    g.input r j = some pred → g.live pred = true → s.exec pred = true → ¬ C pred →
    r ∈ s.flowTargets g pred →
    s.val p = .bot ∨ ∃ v, g.input p (j + 1) = some v ∧ s.val p ≤ s.valAt g v
  ctrlDone : ∀ n u, g.live n = true → s.exec n = true → ¬ C n → u ∈ s.flowTargets g n →
    s.exec u = true
  startExec : g.live Graph.startNode = true → s.exec Graph.startNode = true

section

variable {g : Graph} {F : FloatOps} {s s' : Sccp} {C C' S S' : NodeId → Prop}

theorem live_iff {n : NodeId} : g.live n = true ↔ n < g.nodeCount ∧ g.isDead n = false := by
  simp [Graph.live]

/-- The invariant reads values and marks only, and more pending nodes ask less. -/
theorem Inv.weaken (h : Inv g F s C S) (hVal : s'.val = s.val) (hExec : s'.exec = s.exec)
    (hC : ∀ n, C n → C' n) (hS : ∀ n, S n → S' n) : Inv g F s' C' S' := by
  have hAt (m : NodeId) : s'.valAt g m = s.valAt g m := by simp only [Sccp.valAt, hVal]
  have hFlow (m : NodeId) : s'.flowTargets g m = s.flowTargets g m := by
    simp only [Sccp.flowTargets, hAt]
  refine
    { nullSourced := ?_
      seeded := ?_
      floor := ?_
      evalDone := ?_
      phiDone := ?_
      ctrlDone := ?_
      startExec := ?_ }
  · intro n hn
    rw [hVal] at hn
    exact h.nullSourced n hn
  · intro n hn
    rw [hVal]
    exact h.seeded n hn
  · intro n hn
    rw [hVal, evalFloor_eq hVal hExec]
    exact h.floor n hn
  · intro n hn hPhi hPend
    rw [hVal, evalNode_eq hVal hExec]
    exact h.evalDone n hn hPhi (fun hSn => hPend (hS n hSn))
  · intro p r pred j hLive hKind hPend hRegion hr hLike hCr hEdge hPred hFlows hCp hMem
    rw [hExec] at hFlows
    rw [hFlow] at hMem
    simp only [hVal, hAt]
    exact h.phiDone p r pred j hLive hKind (fun hSp => hPend (hS p hSp)) hRegion hr hLike
      (fun hc => hCr (hC r hc)) hEdge hPred hFlows (fun hc => hCp (hC pred hc)) hMem
  · intro n u hLive hn hPend hMem
    rw [hExec] at hn ⊢
    rw [hFlow] at hMem
    exact h.ctrlDone n u hLive hn (fun hc => hPend (hC n hc)) hMem
  · rw [hExec]
    exact h.startExec

/-! ## Lowering a value -/

variable {v : Flat ConstVal}

theorem descends_setVal {n : NodeId} (hLe : v ≤ s.val n) : Descends s (s.setVal n v) where
  val m := by
    by_cases hm : m = n
    · subst hm
      simpa [Sccp.setVal] using hLe
    · simp [Sccp.setVal, hm]
  exec m h := h

theorem setVal_val_of_ne {n m : NodeId} (hm : m ≠ n) : (s.setVal n v).val m = s.val m := by
  simp [Sccp.setVal, hm]

theorem setVal_val_self {n : NodeId} : (s.setVal n v).val n = v := by
  simp [Sccp.setVal]

theorem setVal_valAt_of_ne {n m : NodeId} (hm : m ≠ n) :
    (s.setVal n v).valAt g m = s.valAt g m := by
  simp [Sccp.valAt, setVal_val_of_ne hm]

/-- Only a branch or a guard on `n` changes where it passes control. -/
theorem flowTargets_setVal {n m : NodeId}
    (hCond : (g.kind m = .ifNode ∨ g.kind m = .guardNode) → g.input m 1 ≠ some n) :
    (s.setVal n v).flowTargets g m = s.flowTargets g m := by
  unfold Sccp.flowTargets
  split
  · rename_i hKind
    cases hInput : g.input m 1 with
    | none => rfl
    | some c =>
      have hc : c ≠ n := fun h => hCond (Or.inl hKind) (h ▸ hInput)
      simp only [setVal_valAt_of_ne hc]
  · rfl
  · rename_i hKind
    cases hInput : g.input m 1 with
    | none => rfl
    | some c =>
      have hc : c ≠ n := fun h => hCond (Or.inr hKind) (h ▸ hInput)
      simp only [setVal_valAt_of_ne hc]
  all_goals rfl

/-- Lowering the value of `n` keeps the invariant once everything that reads `n` is
pending. -/
theorem Inv.lower (hNull : NullConsistent g) (h : Inv g F s C S) {n : NodeId}
    (hEval : Evaluable g n) (hLe : v ≤ s.val n) (hv : v = .bot ∨ v = s.evalNode g F n)
    (hC : ∀ m, C m → C' m) (hS : ∀ m, m ≠ n → S m → S' m)
    (hCtrl : ∀ u slot, g.input u slot = some n → g.live u = true →
      (g.kind u = .ifNode ∨ g.kind u = .guardNode) → C' u)
    (hUse : ∀ u slot, g.input u slot = some n → Evaluable g u → S' u) :
    Inv g F (s.setVal n v) C' S' := by
  have hDesc : Descends s (s.setVal n v) := descends_setVal hLe
  have hSrc' : NullSourced g (s.setVal n v) := by
    intro m hm
    by_cases hmn : m = n
    · subst hmn
      rw [setVal_val_self] at hm
      rcases hv with hv | hv
      · rw [hm] at hv
        cases hv
      · exact mergesNull_of_evalNode h.nullSourced (hv.symm.trans hm)
    · rw [setVal_val_of_ne hmn] at hm
      exact h.nullSourced m hm
  -- A node that is not pending afterwards does not read `n`.
  have hNotRead {m : NodeId} (hm : Evaluable g m) (hPend : ¬ S' m) (slot : Nat) (w : NodeId)
      (hw : g.input m slot = some w) : w ≠ n := by
    rintro rfl
    exact hPend (hUse m slot hw hm)
  have hFlow {m : NodeId} (hLive : g.live m = true) (hPend : ¬ C' m) :
      (s.setVal n v).flowTargets g m = s.flowTargets g m :=
    flowTargets_setVal fun hKind hInput => hPend (hCtrl m 1 hInput hLive hKind)
  refine
    { nullSourced := hSrc'
      seeded := ?_
      floor := ?_
      evalDone := ?_
      phiDone := ?_
      ctrlDone := ?_
      startExec := h.startExec }
  · intro m hm
    have hne : m ≠ n := fun hmn => hm (hmn ▸ hEval)
    rw [setVal_val_of_ne hne]
    exact h.seeded m hm
  · intro m hm
    have hMono := evalFloor_mono (F := F) hNull h.nullSourced hSrc' hDesc hm.1
    by_cases hmn : m = n
    · subst hmn
      rw [setVal_val_self]
      rcases hv with hv | hv
      · exact Or.inl hv
      · exact Or.inr ((hMono.trans (evalFloor_le g F s m)).trans (le_of_eq hv.symm))
    · rw [setVal_val_of_ne hmn]
      rcases h.floor m hm with hBot | hFloor
      · exact Or.inl hBot
      · exact Or.inr (hMono.trans hFloor)
  · intro m hm hPhi hPend
    have hSame : (s.setVal n v).evalNode g F m = s.evalNode g F m :=
      evalNode_congr hPhi fun slot w hw => setVal_val_of_ne (hNotRead hm hPend slot w hw)
    rw [hSame]
    by_cases hmn : m = n
    · subst hmn
      rw [setVal_val_self]
      exact hv.imp_right Or.inl
    · rw [setVal_val_of_ne hmn]
      exact h.evalDone m hm hPhi (fun hSm => hPend (hS m hmn hSm))
  · intro p r pred j hLive hKind hPend hRegion hr hLike hCr hEdge hPred hExec hCp hMem
    have hp : Evaluable g p := ⟨hLive, by simp [hKind]⟩
    rw [hFlow hPred hCp] at hMem
    by_cases hpn : p = n
    · subst hpn
      rw [setVal_val_self]
      rcases hv with hv | hv
      · exact Or.inl hv
      have hExecR : s.exec r = true :=
        h.ctrlDone pred r hPred hExec (fun hc => hCp (hC pred hc)) hMem
      have hPhiEq : s.evalNode g F p = s.evalPhi g p := by simp [Sccp.evalNode, hKind]
      rw [hv, hPhiEq]
      rcases evalPhi_le_edge (n := p) hRegion hr hLike hExecR hEdge hPred hExec with
        hBot | ⟨w, hw, hLe⟩
      · exact Or.inl hBot
      · refine Or.inr ⟨w, hw, ?_⟩
        rw [setVal_valAt_of_ne (hNotRead hp hPend (j + 1) w hw)]
        exact hLe
    · rw [setVal_val_of_ne hpn]
      rcases h.phiDone p r pred j hLive hKind (fun hSp => hPend (hS p hpn hSp)) hRegion hr hLike
          (fun hc => hCr (hC r hc)) hEdge hPred hExec (fun hc => hCp (hC pred hc)) hMem with
        hBot | ⟨w, hw, hLe⟩
      · exact Or.inl hBot
      · refine Or.inr ⟨w, hw, ?_⟩
        rw [setVal_valAt_of_ne (hNotRead hp hPend (j + 1) w hw)]
        exact hLe
  · intro m u hLive hExec hPend hMem
    rw [hFlow hLive hPend] at hMem
    exact h.ctrlDone m u hLive hExec (fun hc => hPend (hC m hc)) hMem

/-! ## Passing control on -/

theorem flowTargets_live {n u : NodeId} (h : u ∈ s.flowTargets g n) : g.live u = true := by
  have hUsers {m : NodeId} (hm : u ∈ Sccp.ctrlUsers g m) : g.live u = true := by
    simp only [Sccp.ctrlUsers, mem_map, mem_filter, Bool.and_eq_true] at hm
    obtain ⟨w, ⟨-, ⟨hLive, -⟩, -⟩, rfl⟩ := hm
    exact hLive
  have hProj {m : NodeId} {k : NodeKind} (hm : u ∈ (Sccp.projectionOf g m k).toList) :
      g.live u = true := by
    rw [Option.mem_toList] at hm
    obtain ⟨w, hw, rfl⟩ := Option.map_eq_some_iff.mp hm
    have hFound := find?_some hw
    simp only [Bool.and_eq_true] at hFound
    exact hFound.1.2
  have hSwitch {m : NodeId} (hm : u ∈ Sccp.switchProjections g m) : g.live u = true := by
    simp only [Sccp.switchProjections, mem_map, mem_filter, Bool.and_eq_true] at hm
    obtain ⟨w, ⟨-, ⟨-, hLive⟩, -⟩, rfl⟩ := hm
    exact hLive
  unfold Sccp.flowTargets at h
  split at h
  · split at h
    · cases h
    split at h
    · cases h
    · exact hProj h
    · rcases mem_append.mp h with h | h
      · exact hProj h
      · exact hProj h
  · exact hSwitch h
  · split at h
    · cases h
    split at h
    · cases h
    · split at h
      · cases h
      · exact hUsers h
    · exact hUsers h
  · cases h
  · cases h
  · cases h
  · cases h
  · exact hUsers h

theorem mem_phiUsers (hUse : g.UseDef) {r p : NodeId} (hr : g.live r = true)
    (hp : g.live p = true) (hKind : g.kind p = .phi) (hInput : g.input p 0 = some r) :
    p ∈ Sccp.phiUsers g r := by
  have hMem : (⟨p, 0⟩ : Use) ∈ g.usesOf r :=
    (hUse r p 0 (live_iff.mp hr).1 (live_iff.mp hp).1).mpr hInput
  simp only [Sccp.phiUsers, mem_map, mem_filter]
  exact ⟨⟨p, 0⟩, ⟨hMem, by simp [hp, hKind]⟩, rfl⟩

/-- What marking a list of control users does. -/
structure Marked (g : Graph) (l : List NodeId) (s s' : Sccp) : Prop where
  val : s'.val = s.val
  ssaQ : s'.ssaQ = s.ssaQ
  exec : ∀ m, s.exec m = true → s'.exec m = true
  cfgQ : ∀ m, m ∈ s.cfgQ → m ∈ s'.cfgQ
  fresh : ∀ m, s'.exec m = true → s.exec m = true ∨ m ∈ s'.cfgQ
  reached : ∀ m ∈ l, g.live m = true → s'.exec m = true
  merges : ∀ m ∈ l, g.live m = true → isRegionLikeK (g.kind m) = true → m ∈ s'.cfgQ

/-- A live node is appended to a list unless it is there. -/
theorem mem_pushed {l : List NodeId} {n m : NodeId} :
    m ∈ (if g.live n && !l.contains n then l ++ [n] else l) ↔
      m ∈ l ∨ (m = n ∧ g.live n = true) := by
  split
  · rename_i h
    simp only [Bool.and_eq_true] at h
    simp [h.1]
  rename_i h
  simp only [Bool.and_eq_true, Bool.not_eq_true', contains_eq_mem, decide_eq_false_iff_not,
    not_and, not_not] at h
  constructor
  · exact Or.inl
  · rintro (hm | ⟨rfl, hLive⟩)
    · exact hm
    · exact h hLive

theorem mem_pushCfg {n m : NodeId} :
    m ∈ (s.pushCfg g n).cfgQ ↔ m ∈ s.cfgQ ∨ (m = n ∧ g.live n = true) := by
  rw [← mem_pushed, Sccp.pushCfg]
  split <;> rfl

theorem pushCfg_fields {n : NodeId} : (s.pushCfg g n).val = s.val ∧
    (s.pushCfg g n).exec = s.exec ∧ (s.pushCfg g n).ssaQ = s.ssaQ := by
  unfold Sccp.pushCfg
  split <;> exact ⟨rfl, rfl, rfl⟩

theorem mem_pushSsa {n m : NodeId} :
    m ∈ (s.pushSsa g n).ssaQ ↔ m ∈ s.ssaQ ∨ (m = n ∧ g.live n = true) := by
  rw [← mem_pushed, Sccp.pushSsa]
  split <;> rfl

theorem pushSsa_fields {n : NodeId} : (s.pushSsa g n).val = s.val ∧
    (s.pushSsa g n).exec = s.exec ∧ (s.pushSsa g n).cfgQ = s.cfgQ := by
  unfold Sccp.pushSsa
  split <;> exact ⟨rfl, rfl, rfl⟩

theorem exec_setExec_pushCfg {u m : NodeId} :
    ((s.setExec u).pushCfg g u).exec m = true ↔ m = u ∨ s.exec m = true := by
  rw [pushCfg_fields.2.1]
  by_cases hmu : m = u <;> simp [Sccp.setExec, hmu]

/-- Nothing is to do where the users are marked and the merges among them pending. -/
theorem marked_same {l : List NodeId} (hDone : ∀ m ∈ l, g.live m = true →
      s.exec m = true ∧ (isRegionLikeK (g.kind m) = true → m ∈ s.cfgQ)) : Marked g l s s where
  val := rfl
  ssaQ := rfl
  exec m hm := hm
  cfgQ m hm := hm
  fresh m hm := Or.inl hm
  reached m hm hLive := (hDone m hm hLive).1
  merges m hm hLive := (hDone m hm hLive).2

theorem marked_setExec {u : NodeId} (hLive : g.live u = true) :
    Marked g [u] s ((s.setExec u).pushCfg g u) := by
  obtain ⟨hVal, -, hSsa⟩ := pushCfg_fields (g := g) (s := s.setExec u) (n := u)
  refine
    { val := hVal
      ssaQ := hSsa
      exec := fun m hm => exec_setExec_pushCfg.mpr (Or.inr hm)
      cfgQ := fun m hm => mem_pushCfg.mpr (Or.inl hm)
      fresh := fun m hm => ?_
      reached := fun m hm _ => exec_setExec_pushCfg.mpr (Or.inl (mem_singleton.mp hm))
      merges := fun m hm _ _ => mem_pushCfg.mpr (Or.inr ⟨mem_singleton.mp hm, hLive⟩) }
  rcases exec_setExec_pushCfg.mp hm with hmu | hOld
  · exact Or.inr (mem_pushCfg.mpr (Or.inr ⟨hmu, hLive⟩))
  · exact Or.inl hOld

theorem marked_one (u : NodeId) : Marked g [u] s (s.markCtrlUser g u) := by
  unfold Sccp.markCtrlUser
  split
  · rename_i hLive
    split
    · exact marked_setExec hLive
    rename_i hLike
    split
    · rename_i hExec
      refine marked_same fun m hm _ => ?_
      rw [mem_singleton.mp hm]
      exact ⟨hExec, fun hLike' => absurd hLike' hLike⟩
    · exact marked_setExec hLive
  · rename_i hLive
    refine marked_same fun m hm hLive' => ?_
    rw [mem_singleton.mp hm] at hLive'
    exact absurd hLive' hLive

theorem Marked.trans {l l' : List NodeId} {s'' : Sccp} (h : Marked g l s s')
    (h' : Marked g l' s' s'') : Marked g (l ++ l') s s'' where
  val := h'.val.trans h.val
  ssaQ := h'.ssaQ.trans h.ssaQ
  exec m hm := h'.exec m (h.exec m hm)
  cfgQ m hm := h'.cfgQ m (h.cfgQ m hm)
  fresh m hm := by
    rcases h'.fresh m hm with hMid | hQ
    · exact (h.fresh m hMid).imp_right (h'.cfgQ m)
    · exact Or.inr hQ
  reached m hm hLive := by
    rcases mem_append.mp hm with hm | hm
    · exact h'.exec m (h.reached m hm hLive)
    · exact h'.reached m hm hLive
  merges m hm hLive hLike := by
    rcases mem_append.mp hm with hm | hm
    · exact h'.cfgQ m (h.merges m hm hLive hLike)
    · exact h'.merges m hm hLive hLike

theorem marked_all (l : List NodeId) : ∀ s, Marked g l s (l.foldl (Sccp.markCtrlUser g) s) := by
  induction l with
  | nil => exact fun s => marked_same fun m hm => absurd hm not_mem_nil
  | cons u rest ih => exact fun s => (marked_one u).trans (ih (s.markCtrlUser g u))

theorem wake_all (l : List NodeId) : ∀ s : Sccp,
    (l.foldl (Sccp.pushSsa g) s).val = s.val ∧ (l.foldl (Sccp.pushSsa g) s).exec = s.exec ∧
    (l.foldl (Sccp.pushSsa g) s).cfgQ = s.cfgQ ∧
    ∀ m, m ∈ (l.foldl (Sccp.pushSsa g) s).ssaQ ↔ m ∈ s.ssaQ ∨ (m ∈ l ∧ g.live m = true) := by
  induction l with
  | nil => simp
  | cons u rest ih =>
    intro s
    obtain ⟨hVal, hExec, hCfg⟩ := pushSsa_fields (g := g) (s := s) (n := u)
    obtain ⟨hVal', hExec', hCfg', hMem⟩ := ih (s.pushSsa g u)
    rw [foldl_cons]
    refine ⟨hVal'.trans hVal, hExec'.trans hExec, hCfg'.trans hCfg, fun m => ?_⟩
    rw [hMem, mem_pushSsa]
    constructor
    · rintro ((hm | ⟨rfl, hLive⟩) | ⟨hm, hLive⟩)
      · exact Or.inl hm
      · exact Or.inr ⟨mem_cons_self, hLive⟩
      · exact Or.inr ⟨mem_cons_of_mem _ hm, hLive⟩
    · rintro (hm | ⟨hm, hLive⟩)
      · exact Or.inl (Or.inl hm)
      · rcases mem_cons.mp hm with rfl | hm
        · exact Or.inl (Or.inr ⟨rfl, hLive⟩)
        · exact Or.inr ⟨hm, hLive⟩

theorem flowTargets_eq (hVal : s'.val = s.val) (n : NodeId) :
    s'.flowTargets g n = s.flowTargets g n := by
  simp only [Sccp.flowTargets, Sccp.valAt, hVal]

/-- A control node that is not executable, or dead, can be dropped from the list. -/
theorem Inv.drop (h : Inv g F s C S) {n : NodeId}
    (hIdle : ¬ (g.live n = true ∧ s.exec n = true)) (hC : ∀ m, m ≠ n → C m → C' m) :
    Inv g F s C' S := by
  have hKeep {m : NodeId} (hLive : g.live m = true) (hExec : s.exec m = true)
      (hPend : ¬ C' m) : ¬ C m := by
    intro hm
    have hne : m ≠ n := by
      rintro rfl
      exact hIdle ⟨hLive, hExec⟩
    exact hPend (hC m hne hm)
  exact
    { h with
      phiDone := fun p r pred j hLive hKind hPend hRegion hr hLike hCr hEdge hPred hExec hCp
          hMem => by
        have hPredDone := hKeep hPred hExec hCp
        have hExecR := h.ctrlDone pred r hPred hExec hPredDone hMem
        exact h.phiDone p r pred j hLive hKind hPend hRegion hr hLike (hKeep hr hExecR hCr) hEdge
          hPred hExec hPredDone hMem
      ctrlDone := fun m u hLive hExec hPend =>
        h.ctrlDone m u hLive hExec (hKeep hLive hExec hPend) }

/-- Passing control from an executable node to its targets keeps the invariant. -/
theorem Inv.pass (hUse : g.UseDef) (hNull : NullConsistent g) (h : Inv g F s C S) {n : NodeId}
    (hLive : g.live n = true) (hMark : Marked g (s.flowTargets g n) s s')
    (hC : ∀ m, m ≠ n → C m → C' m) (hQ : ∀ m, m ∈ s'.cfgQ → C' m) (hS : ∀ m, S m → S' m)
    (hPhis : isRegionLikeK (g.kind n) = true → ∀ p ∈ Sccp.phiUsers g n, S' p) :
    Inv g F s' C' S' := by
  have hDesc : Descends s s' := ⟨fun m => le_of_eq (by rw [hMark.val]), hMark.exec⟩
  have hSrc' : NullSourced g s' := by
    intro m hm
    rw [hMark.val] at hm
    exact h.nullSourced m hm
  -- What is not pending afterwards was executable and not pending before, unless it is `n`.
  have hOld {m : NodeId} (hExec : s'.exec m = true) (hPend : ¬ C' m) (hne : m ≠ n) :
      s.exec m = true ∧ ¬ C m := by
    rcases hMark.fresh m hExec with hm | hm
    · exact ⟨hm, fun hCm => hPend (hC m hne hCm)⟩
    · exact absurd (hQ m hm) hPend
  refine
    { nullSourced := hSrc'
      seeded := ?_
      floor := ?_
      evalDone := ?_
      phiDone := ?_
      ctrlDone := ?_
      startExec := fun hStart => hMark.exec _ (h.startExec hStart) }
  · intro m hm
    rw [hMark.val]
    exact h.seeded m hm
  · intro m hm
    rw [hMark.val]
    rcases h.floor m hm with hBot | hFloor
    · exact Or.inl hBot
    · exact Or.inr ((evalFloor_mono hNull h.nullSourced hSrc' hDesc hm.1).trans hFloor)
  · intro m hm hPhi hPend
    have hSame : s'.evalNode g F m = s.evalNode g F m :=
      evalNode_congr hPhi fun slot w _ => by rw [hMark.val]
    rw [hSame, hMark.val]
    exact h.evalDone m hm hPhi (fun hSm => hPend (hS m hSm))
  · intro p r pred j hLiveP hKind hPend hRegion hr hLike hCr hEdge hPred hExec hCp hMem
    have hAt (w : NodeId) : s'.valAt g w = s.valAt g w := by simp only [Sccp.valAt, hMark.val]
    rw [flowTargets_eq hMark.val] at hMem
    by_cases hPredN : pred = n
    · -- Control entered the merge just now, so the merge is pending.
      subst hPredN
      exact absurd (hQ r (hMark.merges r hMem hr hLike)) hCr
    obtain ⟨hExecOld, hCpOld⟩ := hOld hExec hCp hPredN
    by_cases hrn : r = n
    · -- The merge itself was processed, so its phis are pending.
      subst hrn
      exact absurd (hPhis hLike p (mem_phiUsers hUse hr hLiveP hKind hRegion)) hPend
    · simp only [hMark.val, hAt]
      exact h.phiDone p r pred j hLiveP hKind (fun hSp => hPend (hS p hSp)) hRegion hr hLike
        (fun hCr' => hCr (hC r hrn hCr')) hEdge hPred hExecOld hCpOld hMem
  · intro m u hLiveM hExec hPend hMem
    rw [flowTargets_eq hMark.val] at hMem
    by_cases hmn : m = n
    · subst hmn
      exact hMark.reached u hMem (flowTargets_live hMem)
    · obtain ⟨hExecOld, hCOld⟩ := hOld hExec hPend hmn
      exact hMark.exec u (h.ctrlDone m u hLiveM hExecOld hCOld hMem)

/-! ## The operations of the work lists -/

/-- The invariant with the lists themselves as the pending sets. -/
def Listed (g : Graph) (F : FloatOps) (s : Sccp) : Prop :=
  Inv g F s (· ∈ s.cfgQ) (· ∈ s.ssaQ)

/-- The phis of a merge that control reaches are pending again. -/
def Sccp.wakePhis (g : Graph) (s : Sccp) (n : NodeId) : Sccp :=
  if isRegionLikeK (g.kind n) then (Sccp.phiUsers g n).foldl (Sccp.pushSsa g) s else s

/-- Waking the phis of a merge touches the value list only. -/
theorem wakePhis_spec (s : Sccp) (n : NodeId) : (s.wakePhis g n).val = s.val ∧
    (s.wakePhis g n).exec = s.exec ∧ (s.wakePhis g n).cfgQ = s.cfgQ ∧
    (∀ m, m ∈ s.ssaQ → m ∈ (s.wakePhis g n).ssaQ) ∧
    (isRegionLikeK (g.kind n) = true → ∀ p ∈ Sccp.phiUsers g n, p ∈ (s.wakePhis g n).ssaQ) := by
  unfold Sccp.wakePhis
  split
  · obtain ⟨hVal, hExec, hCfg, hMem⟩ := wake_all (g := g) (Sccp.phiUsers g n) s
    refine ⟨hVal, hExec, hCfg, fun m hm => (hMem m).mpr (Or.inl hm), fun _ p hp => ?_⟩
    have hLive : g.live p = true := by
      simp only [Sccp.phiUsers, mem_map, mem_filter, Bool.and_eq_true] at hp
      obtain ⟨w, ⟨-, ⟨-, hw⟩, -⟩, rfl⟩ := hp
      exact hw
    exact (hMem p).mpr (Or.inr ⟨hp, hLive⟩)
  · rename_i hLike
    exact ⟨rfl, rfl, rfl, fun m hm => hm, fun hLike' => absurd hLike' hLike⟩

/-- An executable control node wakes its phis and marks its targets, another does nothing. -/
theorem processCfg_cases (s : Sccp) (n : NodeId) :
    ((g.live n = true ∧ s.exec n = true) ∧ s.processCfg g n =
      ((s.wakePhis g n).flowTargets g n).foldl (Sccp.markCtrlUser g) (s.wakePhis g n)) ∨
    (¬ (g.live n = true ∧ s.exec n = true) ∧ s.processCfg g n = s) := by
  rw [← Bool.and_eq_true]
  unfold Sccp.processCfg
  split
  · rename_i hActive
    exact Or.inl ⟨hActive, rfl⟩
  · rename_i hIdle
    exact Or.inr ⟨hIdle, rfl⟩

/-- Processing a control node taken off the list, from whatever place, keeps it. -/
theorem processCfg_listed (hUse : g.UseDef) (hNull : NullConsistent g) {n : NodeId}
    {rest : List NodeId} (hRest : ∀ m, m ≠ n → m ∈ s.cfgQ → m ∈ rest) (h : Listed g F s) :
    Listed g F (Sccp.processCfg g { s with cfgQ := rest } n) := by
  rcases processCfg_cases (g := g) { s with cfgQ := rest } n with ⟨hActive, hEq⟩ | ⟨hIdle, hEq⟩ <;>
    rw [hEq]
  · obtain ⟨hVal, hExec, hCfg, hSsa, hPhis⟩ := wakePhis_spec (g := g) { s with cfgQ := rest } n
    generalize Sccp.wakePhis g { s with cfgQ := rest } n = woken at *
    have hInv : Inv g F woken (· ∈ s.cfgQ) (· ∈ s.ssaQ) :=
      h.weaken hVal hExec (fun _ hm => hm) (fun _ hm => hm)
    have hMark := marked_all (g := g) (woken.flowTargets g n) woken
    refine hInv.pass hUse hNull hActive.1 hMark ?_ (fun m hm => hm) ?_ ?_
    · intro m hne hm
      exact hMark.cfgQ m (hCfg ▸ hRest m hne hm)
    · intro m hm
      rw [hMark.ssaQ]
      exact hSsa m hm
    · intro hLike p hp
      rw [hMark.ssaQ]
      exact hPhis hLike p hp
  · have hDrop : Inv g F s (· ∈ rest) (· ∈ s.ssaQ) := h.drop hIdle hRest
    exact hDrop.weaken rfl rfl (fun _ hm => hm) (fun _ hm => hm)

/-- What waking a list of users does. -/
structure Woken (g : Graph) (l : List NodeId) (s s' : Sccp) : Prop where
  val : s'.val = s.val
  exec : s'.exec = s.exec
  cfgQ : ∀ m, m ∈ s.cfgQ → m ∈ s'.cfgQ
  ssaQ : ∀ m, m ∈ s.ssaQ → m ∈ s'.ssaQ
  ctrl : ∀ u ∈ l, g.live u = true → (g.kind u = .ifNode ∨ g.kind u = .guardNode) → u ∈ s'.cfgQ
  users : ∀ u ∈ l, Evaluable g u → u ∈ s'.ssaQ

theorem woken_same {l : List NodeId} (hCtrl : ∀ u ∈ l, g.live u = true →
      ¬ (g.kind u = .ifNode ∨ g.kind u = .guardNode)) (hUsers : ∀ u ∈ l, ¬ Evaluable g u) :
    Woken g l s s :=
  ⟨rfl, rfl, fun _ hm => hm, fun _ hm => hm, fun u hu hLive hk => absurd hk (hCtrl u hu hLive),
    fun u hu hEval => absurd hEval (hUsers u hu)⟩

theorem Woken.trans {l l' : List NodeId} {s'' : Sccp} (h : Woken g l s s')
    (h' : Woken g l' s' s'') : Woken g (l ++ l') s s'' where
  val := h'.val.trans h.val
  exec := h'.exec.trans h.exec
  cfgQ m hm := h'.cfgQ m (h.cfgQ m hm)
  ssaQ m hm := h'.ssaQ m (h.ssaQ m hm)
  ctrl u hu hLive hKind := by
    rcases mem_append.mp hu with hu | hu
    · exact h'.cfgQ u (h.ctrl u hu hLive hKind)
    · exact h'.ctrl u hu hLive hKind
  users u hu hEval := by
    rcases mem_append.mp hu with hu | hu
    · exact h'.ssaQ u (h.users u hu hEval)
    · exact h'.users u hu hEval

theorem pushUser_one (u : NodeId) : Woken g [u] s (s.pushUser g u) := by
  unfold Sccp.pushUser
  split
  · rename_i hLive
    split
    · rename_i hKind
      obtain ⟨hv, he, hq⟩ := pushCfg_fields (g := g) (s := s) (n := u)
      refine ⟨hv, he, fun m hm => mem_pushCfg.mpr (Or.inl hm), fun m hm => hq ▸ hm,
        fun m hm _ _ => mem_pushCfg.mpr (Or.inr ⟨mem_singleton.mp hm, hLive⟩), fun m hm hEval => ?_⟩
      have hNot := hEval.2
      rw [mem_singleton.mp hm] at hNot
      rcases hKind with hKind | hKind | hKind <;> rw [hKind] at hNot <;>
        exact absurd hNot (by decide)
    · rename_i hKind
      have hCtrl : ∀ m ∈ [u], g.live m = true → ¬ (g.kind m = .ifNode ∨ g.kind m = .guardNode) := by
        intro m hm _ hk
        rw [mem_singleton.mp hm] at hk
        exact hKind (hk.imp_right Or.inl)
      split
      · obtain ⟨hv, he, hq⟩ := pushSsa_fields (g := g) (s := s) (n := u)
        exact ⟨hv, he, fun m hm => hq ▸ hm, fun m hm => mem_pushSsa.mpr (Or.inl hm),
          fun m hm hLive' hk => absurd hk (hCtrl m hm hLive'),
          fun m hm _ => mem_pushSsa.mpr (Or.inr ⟨mem_singleton.mp hm, hLive⟩)⟩
      · rename_i hEval
        exact woken_same hCtrl fun m hm h => hEval (mem_singleton.mp hm ▸ h.2)
  · rename_i hLive
    exact woken_same (fun m hm h => absurd (mem_singleton.mp hm ▸ h) hLive)
      fun m hm h => hLive (mem_singleton.mp hm ▸ h.1)

theorem pushUser_all (l : List NodeId) : ∀ s, Woken g l s (l.foldl (Sccp.pushUser g) s) := by
  induction l with
  | nil => exact fun s => woken_same (by simp) (by simp)
  | cons u rest ih => exact fun s => (pushUser_one u).trans (ih (s.pushUser g u))

theorem lower_listed (hUse : g.UseDef) (hNull : NullConsistent g) {n : NodeId}
    (hEval : Evaluable g n) (hLe : v ≤ s.val n) (hv : v = .bot ∨ v = s.evalNode g F n)
    (h : Inv g F s C S) (hC : ∀ m, C m → m ∈ s.cfgQ) (hS : ∀ m, m ≠ n → S m → m ∈ s.ssaQ) :
    Listed g F ((s.setVal n v).pushUsersOf g n) := by
  unfold Sccp.pushUsersOf
  have hWoken := pushUser_all (g := g) ((g.usesOf n).map Use.user) (s.setVal n v)
  have hReader {u : NodeId} {slot : Nat} (hInput : g.input u slot = some n)
      (hLive : g.live u = true) : u ∈ (g.usesOf n).map Use.user := by
    have hMem := (hUse n u slot (live_iff.mp hEval.1).1 (live_iff.mp hLive).1).mpr hInput
    exact mem_map.mpr ⟨⟨u, slot⟩, hMem, rfl⟩
  have hLower : Inv g F (s.setVal n v)
      (· ∈ (((g.usesOf n).map Use.user).foldl (Sccp.pushUser g) (s.setVal n v)).cfgQ)
      (· ∈ (((g.usesOf n).map Use.user).foldl (Sccp.pushUser g) (s.setVal n v)).ssaQ) :=
    h.lower hNull hEval hLe hv (fun m hm => hWoken.cfgQ m (hC m hm))
      (fun m hne hm => hWoken.ssaQ m (hS m hne hm))
      (fun u slot hInput hLive => hWoken.ctrl u (hReader hInput hLive) hLive)
      (fun u slot hInput hEvalU => hWoken.users u (hReader hInput hEvalU.1) hEvalU)
  exact hLower.weaken hWoken.val hWoken.exec (fun _ hm => hm) (fun _ hm => hm)

theorem evaluable_phi {p : NodeId} (hLive : g.live p = true) (hKind : g.kind p = .phi) :
    Evaluable g p := ⟨hLive, by simp [hKind]⟩

/-- A value that agrees with its transfer function can be dropped from the list. -/
theorem Inv.settle (h : Inv g F s C S) {n : NodeId}
    (hDone : Evaluable g n → s.val n = .bot ∨ s.val n = s.evalNode g F n ∨
      (g.kind n ≠ .phi ∧ s.evalNode g F n = .top))
    (hS : ∀ m, m ≠ n → S m → S' m) : Inv g F s C S' := by
  refine { h with evalDone := ?_, phiDone := ?_ }
  · intro m hm hPhi hPend
    by_cases hmn : m = n
    · subst hmn
      exact (hDone hm).imp_right (Or.imp_right And.right)
    · exact h.evalDone m hm hPhi (fun hSm => hPend (hS m hmn hSm))
  · intro p r pred j hLive hKind hPend hRegion hr hLike hCr hEdge hPred hExec hCp hMem
    by_cases hpn : p = n
    · subst hpn
      have hExecR := h.ctrlDone pred r hPred hExec hCp hMem
      rcases hDone (evaluable_phi hLive hKind) with hBot | hEq | ⟨hNot, -⟩
      · exact Or.inl hBot
      · have hPhiEq : s.evalNode g F p = s.evalPhi g p := by simp [Sccp.evalNode, hKind]
        rw [hEq, hPhiEq]
        exact evalPhi_le_edge hRegion hr hLike hExecR hEdge hPred hExec
      · exact absurd hKind hNot
    · exact h.phiDone p r pred j hLive hKind (fun hSp => hPend (hS p hpn hSp)) hRegion hr hLike hCr
        hEdge hPred hExec hCp hMem

/-- Re-evaluating a node is a strict descent, or nothing. -/
theorem processSsa_cases (s : Sccp) (n : NodeId) :
    (Evaluable g n ∧ (s.val n).rank < (s.evalNode g F n).rank ∧
      s.processSsa g F n = (s.setVal n (s.evalNode g F n)).pushUsersOf g n) ∨
    ((Evaluable g n → (s.evalNode g F n).rank ≤ (s.val n).rank) ∧ s.processSsa g F n = s) := by
  unfold Sccp.processSsa
  split
  · rename_i hActive
    dsimp only
    split
    · rename_i hRank
      rw [Bool.and_eq_true] at hActive
      exact Or.inl ⟨hActive, hRank, rfl⟩
    · rename_i hRank
      exact Or.inr ⟨fun _ => not_lt.mp hRank, rfl⟩
  · rename_i hIdle
    refine Or.inr ⟨fun hEval => absurd ?_ hIdle, rfl⟩
    rw [Bool.and_eq_true]
    exact hEval

section

variable (hUse : g.UseDef) (hNull : NullConsistent g)
include hUse hNull

/-- Re-evaluating a node taken off the list restores the invariant of the lists. -/
theorem processSsa_listed {n : NodeId} (h : Inv g F s (· ∈ s.cfgQ) (fun m => m = n ∨ m ∈ s.ssaQ)) :
    Listed g F (s.processSsa g F n) := by
  have hRest (m : NodeId) (hne : m ≠ n) (hm : m = n ∨ m ∈ s.ssaQ) : m ∈ s.ssaQ :=
    hm.resolve_left hne
  rcases processSsa_cases (g := g) (F := F) s n with ⟨hEval, hRank, hEq⟩ | ⟨hRank, hEq⟩ <;> rw [hEq]
  · -- A strict descent: the new value is resolved, so it is the floor.
    have hLe : s.evalNode g F n ≤ s.val n := by
      rcases h.floor n hEval with hBot | hFloor
      · rw [hBot] at hRank
        cases hNew : s.evalNode g F n <;> simp [hNew, Flat.rank] at hRank
      · rcases evalFloor_eq_or g F s n with hEq | hTop
        · rw [← hEq]
          exact hFloor
        · rw [hTop] at hRank
          simp [Flat.rank] at hRank
    exact lower_listed hUse hNull hEval hLe (Or.inr rfl) h (fun m hm => hm) hRest
  · -- No descent: the value already agrees, or the node still waits.
    refine h.settle (fun hEval => ?_) hRest
    rcases h.floor n hEval with hBot | hFloor
    · exact Or.inl hBot
    right
    have hEqual (hLe : s.evalNode g F n ≤ s.val n) : s.val n = s.evalNode g F n :=
      (Flat.eq_of_le_of_rank_le hLe (hRank hEval)).symm
    by_cases hPhi : g.kind n = .phi
    · have hEq : evalFloor g F s n = s.evalNode g F n := by simp [evalFloor, hPhi]
      exact Or.inl (hEqual (hEq ▸ hFloor))
    · rcases evalFloor_eq_or g F s n with hEq | hTop
      · exact Or.inl (hEqual (hEq ▸ hFloor))
      · exact Or.inr ⟨hPhi, hTop⟩

/-! ## Runs -/

/-- A propagation that comes back leaves both lists empty and the invariant in place. -/
theorem propagate_listed (budget : Nat) : ∀ {s s' : Sccp} {left : Nat}, Listed g F s →
      Sccp.propagate g F budget s = some (left, s') →
      Listed g F s' ∧ s'.cfgQ = [] ∧ s'.ssaQ = [] := by
  induction budget with
  | zero =>
    intro s s' left h hRun
    simp only [Sccp.propagate] at hRun
    split at hRun
    · rename_i hEmpty
      cases hRun
      exact ⟨h, hEmpty⟩
    · cases hRun
  | succ budget ih =>
    intro s s' left h hRun
    cases hCfg : s.cfgQ with
    | cons n rest =>
      simp only [Sccp.propagate, hCfg] at hRun
      refine ih (processCfg_listed hUse hNull (fun m hne hm => ?_) h) hRun
      rw [hCfg] at hm
      exact (mem_cons.mp hm).resolve_left hne
    | nil =>
      cases hSsa : s.ssaQ with
      | cons n rest =>
        simp only [Sccp.propagate, hCfg, hSsa] at hRun
        refine ih (processSsa_listed hUse hNull ?_) hRun
        refine h.weaken rfl rfl (fun m hm => hCfg ▸ hm) (fun m hm => ?_)
        rw [hSsa] at hm
        exact mem_cons.mp hm
      | nil =>
        simp only [Sccp.propagate, hCfg, hSsa] at hRun
        cases hRun
        exact ⟨h, hCfg, hSsa⟩

/-- Forcing one unresolved value down keeps the invariant. -/
theorem completeNode_listed {p : Sccp × Bool}
    (n : NodeId) (h : Listed g F p.1) : Listed g F (Sccp.completeNode g p n).1 := by
  unfold Sccp.completeNode
  split
  · rename_i hUnresolved
    have hEval : Evaluable g n := by
      simp only [Sccp.isUnresolved, Bool.and_eq_true] at hUnresolved
      exact ⟨hUnresolved.1.1.1, hUnresolved.1.2⟩
    exact lower_listed hUse hNull hEval (Flat.bot_le _) (Or.inl rfl) h (fun m hm => hm)
      (fun m _ hm => hm)
  · exact h

theorem completeAll_listed (l : List NodeId) (p : Sccp × Bool) (h : Listed g F p.1) :
    Listed g F (l.foldl (Sccp.completeNode g) p).1 :=
  l.foldlRecOn (motive := fun p : Sccp × Bool => Listed g F p.1) _ h
    fun _ h n _ => completeNode_listed hUse hNull n h

end

theorem completeAll_flag (l : List NodeId) (p : Sccp × Bool) (h : p.2 = true) :
    (l.foldl (Sccp.completeNode g) p).2 = true := by
  refine l.foldlRecOn (motive := fun p : Sccp × Bool => p.2 = true) _ h fun p h n _ => ?_
  unfold Sccp.completeNode
  split
  · rfl
  · exact h

theorem resolved_of_completeAll (l : List NodeId) :
    ∀ s : Sccp, (l.foldl (Sccp.completeNode g) (s, false)).2 = false →
      ∀ n ∈ l, s.isUnresolved g n = false := by
  induction l with
  | nil => exact fun s _ n hn => absurd hn not_mem_nil
  | cons m rest ih =>
    intro s h n hn
    rw [foldl_cons] at h
    by_cases hm : s.isUnresolved g m = true
    · have hFlag : (Sccp.completeNode g (s, false) m).2 = true := by
        simp [Sccp.completeNode, hm]
      rw [completeAll_flag rest _ hFlag] at h
      cases h
    · have hSkip : Sccp.completeNode g (s, false) m = (s, false) := by
        simp [Sccp.completeNode, hm]
      rw [hSkip] at h
      rcases mem_cons.mp hn with rfl | hn
      · exact Bool.eq_false_iff.mpr hm
      · exact ih s h n hn

/-- What holds at the end of the analysis: nothing is pending and nothing that is read
is unresolved. -/
structure Fixpoint (g : Graph) (F : FloatOps) (s : Sccp) : Prop where
  inv : Inv g F s (fun _ => False) (fun _ => False)
  resolved : ∀ n, n < g.nodeCount → s.isUnresolved g n = false

theorem solve_fixpoint (hUse : g.UseDef) (hNull : NullConsistent g) (rounds : Nat) :
    ∀ {budget left : Nat} {s s' : Sccp}, Listed g F s → s.cfgQ = [] → s.ssaQ = [] →
      Sccp.solve g F rounds budget s = some (left, s') → Fixpoint g F s' := by
  induction rounds with
  | zero => exact fun _ _ _ hRun => by cases hRun
  | succ rounds ih =>
    intro budget left s s' h hCfg hSsa hRun
    simp only [Sccp.solve] at hRun
    split at hRun
    · rename_i t hDone
      cases hRun
      have hFlag : (s.complete g).2 = false := by rw [hDone]
      refine ⟨h.weaken rfl rfl (fun m hm => ?_) (fun m hm => ?_), fun n hn => ?_⟩
      · rw [hCfg] at hm
        cases hm
      · rw [hSsa] at hm
        cases hm
      · exact resolved_of_completeAll _ s hFlag n (mem_range.mpr hn)
    · rename_i t hForced
      have hNext : Listed g F t := by
        have h' := completeAll_listed hUse hNull (range g.nodeCount) (s, false) h
        rw [show (range g.nodeCount).foldl (Sccp.completeNode g) (s, false) = (t, true)
          from hForced] at h'
        exact h'
      split at hRun
      · cases hRun
      · rename_i budget' t' hProp
        obtain ⟨hNext', hCfg', hSsa'⟩ := propagate_listed hUse hNull budget hNext hProp
        exact ih hNext' hCfg' hSsa' hRun

/-! ## Seeding -/

theorem constOf_eq_none_of_eval {n : NodeId}
    (hEval : (isEvalK (g.kind n) || g.kind n == .phi) = true) : constOf g n = none := by
  unfold constOf
  dsimp only
  split
  · rfl
  unfold Graph.kind at hEval
  split
  all_goals first
    | rfl
    | (rename_i hKind
       rw [hKind] at hEval
       exact absurd hEval (by decide))

/-- What the first `k` seeding steps have done. -/
structure SeededUpTo (g : Graph) (k : Nat) (s : Sccp) : Prop where
  val : ∀ n, s.val n = if n < k then seedVal g n else .top
  exec : ∀ n, s.exec n = true → n ∈ s.cfgQ
  start : 0 < k → g.live Graph.startNode = true → s.exec Graph.startNode = true
  ssaQ : ∀ n, n < k → Evaluable g n → n ∈ s.ssaQ

/-- One seeding step, from what it does to the four components. -/
theorem SeededUpTo.step {k : Nat} (h : SeededUpTo g k s)
    (hVal : s'.val = Function.update s.val k (seedVal g k))
    (hExec : ∀ n, s'.exec n = true → s.exec n = true ∨ n ∈ s'.cfgQ)
    (hKeep : ∀ n, s.exec n = true → s'.exec n = true) (hCfg : ∀ n, n ∈ s.cfgQ → n ∈ s'.cfgQ)
    (hSsa : ∀ n, n ∈ s.ssaQ → n ∈ s'.ssaQ)
    (hStart : k = Graph.startNode → g.live k = true → s'.exec k = true)
    (hNew : Evaluable g k → k ∈ s'.ssaQ) : SeededUpTo g (k + 1) s' := by
  refine ⟨fun n => ?_, fun n hn => ?_, fun _ hLive => ?_, fun n hn hEval => ?_⟩
  · rw [hVal]
    by_cases hne : n = k
    · subst hne
      simp
    · rw [Function.update_of_ne hne, h.val n]
      have hBelow : n < k + 1 ↔ n < k := by
        rw [Nat.lt_succ_iff_lt_or_eq]
        simp [hne]
      simp only [hBelow]
  · rcases hExec n hn with hOld | hQ
    · exact hCfg n (h.exec n hOld)
    · exact hQ
  · by_cases hk : 0 < k
    · exact hKeep _ (h.start hk hLive)
    · have hk0 : k = Graph.startNode := Nat.eq_zero_of_not_pos hk
      rw [← hk0]
      exact hStart hk0 (hk0 ▸ hLive)
  · rcases Nat.lt_succ_iff_lt_or_eq.mp hn with hn | rfl
    · exact hSsa n (h.ssaQ n hn hEval)
    · exact hNew hEval

theorem seedNode_step (hBuilt : Built g) {k : Nat} (hk : k < g.nodeCount)
    (h : SeededUpTo g k s) : SeededUpTo g (k + 1) (s.seedNode g k) := by
  have hFresh : s.val k = .top := by simp [h.val k]
  have hNotEval (hKind : ¬ (isEvalK (g.kind k) || g.kind k == .phi) = true) : ¬ Evaluable g k :=
    fun hEval => hKind hEval.2
  unfold Sccp.seedNode
  by_cases hDead : g.isDead k = true
  · -- A tombstone keeps the default.
    rw [if_pos hDead]
    have hLive : g.live k = false := by simp [Graph.live, hDead]
    refine h.step ?_ (fun n hn => Or.inl hn) (fun n hn => hn) (fun n hn => hn) (fun n hn => hn)
      (fun _ hl => ?_) (fun hEval => ?_)
    · rw [show seedVal g k = .top by simp [seedVal, hLive], ← hFresh, Function.update_eq_self]
    · rw [hLive] at hl
      cases hl
    · rw [hEval.1] at hLive
      cases hLive
  · rw [if_neg hDead]
    have hLive : g.live k = true := live_iff.mpr ⟨hk, Bool.eq_false_iff.mpr hDead⟩
    cases hConst : constOf g k with
    | some c =>
      have hNot : ¬ Evaluable g k := fun hEval => by
        rw [constOf_eq_none_of_eval hEval.2] at hConst
        cases hConst
      refine h.step ?_ (fun n hn => Or.inl hn) (fun n hn => hn) (fun n hn => hn)
        (fun n hn => hn) (fun hStart _ => ?_) (fun hEval => absurd hEval hNot)
      · simp [Sccp.setVal, seedVal, hLive, hConst]
      · have hKind : (g.node k).kind = .start := by rw [hStart]; exact hBuilt.startKind
        simp [constOf, hKind] at hConst
    | none =>
      dsimp only
      by_cases hStart : k = Graph.startNode
      · rw [if_pos hStart]
        obtain ⟨hv, -, hq⟩ := pushCfg_fields (g := g) (s := s.setExec k) (n := k)
        have hMark := marked_setExec (s := s) hLive
        refine h.step ?_ hMark.fresh hMark.exec hMark.cfgQ (fun n hn => hq ▸ hn)
          (fun _ hLive => hMark.reached k mem_cons_self hLive) (fun hEval => ?_)
        · have hSeed : seedVal g k = .top := by
            simp only [seedVal, hLive, hConst, if_true]
            rw [if_pos hStart]
          rw [hv, hSeed, ← hFresh, Function.update_eq_self]
          rfl
        · have hKind := hEval.2
          rw [hStart, hBuilt.startKind] at hKind
          exact absurd hKind (by decide)
      · rw [if_neg hStart]
        by_cases hKind : (isEvalK (g.kind k) || g.kind k == .phi) = true
        · rw [if_pos hKind]
          obtain ⟨hv, he, hq⟩ := pushSsa_fields (g := g) (s := s.setVal k .top) (n := k)
          refine h.step ?_ (fun n hn => Or.inl (he ▸ hn)) (fun n hn => he ▸ hn)
            (fun n hn => hq ▸ hn) (fun n hn => mem_pushSsa.mpr (Or.inl hn))
            (fun hk _ => absurd hk hStart) (fun _ => mem_pushSsa.mpr (Or.inr ⟨rfl, hLive⟩))
          rw [hv, show seedVal g k = .top by simp [seedVal, hLive, hConst, hStart, hKind]]
          rfl
        · rw [if_neg hKind]
          refine h.step ?_ (fun n hn => Or.inl hn) (fun n hn => hn) (fun n hn => hn)
            (fun n hn => hn) (fun hk _ => absurd hk hStart)
            (fun hEval => absurd hEval (hNotEval hKind))
          rw [show seedVal g k = .bot by simp [seedVal, hLive, hConst, hStart, hKind]]
          rfl

theorem seeded_range (hBuilt : Built g) (k : Nat) (hk : k ≤ g.nodeCount) :
    SeededUpTo g k ((range k).foldl (Sccp.seedNode g) Sccp.initial) := by
  induction k with
  | zero =>
    exact
      { val := fun n => by simp [Sccp.initial]
        exec := fun n hn => by simp [Sccp.initial] at hn
        start := fun h => absurd h (lt_irrefl 0)
        ssaQ := fun n hn => absurd hn (Nat.not_lt_zero n) }
  | succ k ih =>
    rw [range_succ, foldl_append]
    exact seedNode_step hBuilt hk (ih (Nat.le_of_succ_le hk))

theorem seed_val (hBuilt : Built g) (n : NodeId) : (Sccp.seed g).val n = seedVal g n := by
  have h := (seeded_range hBuilt g.nodeCount (le_refl _)).val n
  rw [Sccp.seed, h]
  split
  · rfl
  · rename_i hn
    have hLive : g.live n = false := by
      rw [Bool.eq_false_iff, ne_eq, live_iff]
      exact fun h => hn h.1
    simp [seedVal, hLive]

/-- The seeded state satisfies the invariant: every value is pending and the start
node is the one executable node. -/
theorem seed_listed (hBuilt : Built g) : Listed g F (Sccp.seed g) := by
  have h := seeded_range hBuilt g.nodeCount (le_refl _)
  have hPend {n : NodeId} (hEval : Evaluable g n) : n ∈ (Sccp.seed g).ssaQ :=
    h.ssaQ n (live_iff.mp hEval.1).1 hEval
  refine
    { nullSourced := ?_
      seeded := fun n _ => seed_val hBuilt n
      floor := ?_
      evalDone := fun n hEval _ hn => absurd (hPend hEval) hn
      phiDone := fun p r pred j hLive hKind hn => absurd (hPend (evaluable_phi hLive hKind)) hn
      ctrlDone := fun n u _ hExec hn => absurd (h.exec n hExec) hn
      startExec := fun hLive =>
        h.start (Nat.lt_of_le_of_lt (Nat.zero_le _) (live_iff.mp hLive).1) hLive }
  · intro n hn
    rw [seed_val hBuilt, seedVal] at hn
    split at hn
    · split at hn
      · rename_i c hConst
        cases hn
        have hKind : g.kind n = .constantNull := by
          unfold constOf at hConst
          dsimp only at hConst
          split at hConst
          · cases hConst
          · split at hConst <;> cases hConst
            assumption
        exact .const hKind
      · split at hn
        · cases hn
        · split at hn <;> cases hn
    · cases hn
  · intro n hEval
    right
    have hTop : (Sccp.seed g).val n = .top := by
      rw [seed_val hBuilt, seedVal, if_pos hEval.1, constOf_eq_none_of_eval hEval.2]
      simp [hEval.2]
    rw [hTop]
    exact Flat.le_top _

theorem pushUsersOf_val {n : NodeId} : (s.pushUsersOf g n).val = s.val :=
  (pushUser_all ((g.usesOf n).map Use.user) s).val

theorem processCfg_val {n : NodeId} : (s.processCfg g n).val = s.val := by
  rcases processCfg_cases (g := g) s n with ⟨-, hEq⟩ | ⟨-, hEq⟩ <;> rw [hEq]
  rw [(marked_all _ _).val, (wakePhis_spec s n).1]

/-- **Fixpoint.** An analysis that stays within its budget ends in a fixpoint. -/
theorem analyze_fixpoint (hBuilt : Built g) (hNull : NullConsistent g) {budget left : Nat}
    (hRun : Sccp.analyze g F budget = some (left, s)) : Fixpoint g F s := by
  unfold Sccp.analyze at hRun
  split at hRun
  · cases hRun
  · rename_i budget' t hProp
    obtain ⟨hList, hCfg, hSsa⟩ :=
      propagate_listed hBuilt.useDef hNull budget (seed_listed hBuilt) hProp
    exact solve_fixpoint hBuilt.useDef hNull _ hList hCfg hSsa hRun

end

end B2Compiler.Passes
