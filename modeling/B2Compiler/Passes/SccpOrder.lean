import Mathlib.Algebra.Order.BigOperators.Group.Finset
import Mathlib.Data.Fintype.EquivFin
import B2Compiler.Passes.SccpCorrect

/-!
# The order in which the constant propagation drains its lists

The source drains the control list first and each list from its head.  Here any pending
node may be next, a `Pick`, and the questions are what no order can change.  A value
only descends, in every graph.  A drain is finite unless merges lead straight into each
other in a circle.  And the result is the same for all orders where the transfer
functions descend with what they read: where no identity or null test reads a node that
is both tracked and marked never-null, and where no drain ends with an executable node
in front of a merge that passes no control to it.
-/

namespace B2Compiler.Passes

open Interp List
open Ir
open Lib

/-! ## Drains -/

inductive Pick where
  | cfg (n : NodeId)
  | ssa (n : NodeId)
  deriving DecidableEq, Repr

section

variable (g : Graph) (F : FloatOps)

/-- Takes a pending node off its list and processes it. -/
def Sccp.take (s : Sccp) : Pick → Option Sccp
  | .cfg n =>
    if n ∈ s.cfgQ then some (Sccp.processCfg g { s with cfgQ := s.cfgQ.erase n } n) else none
  | .ssa n =>
    if n ∈ s.ssaQ then some (Sccp.processSsa g F { s with ssaQ := s.ssaQ.erase n } n) else none

/-- Processes pending nodes in the given order. -/
def Sccp.follow : List Pick → Sccp → Option Sccp
  | [], s => some s
  | p :: picks, s => (s.take g F p).bind (Sccp.follow picks)

/-- Some order empties both lists and ends in `t`. -/
def Drains (s t : Sccp) : Prop :=
  ∃ picks, Sccp.follow g F picks s = some t ∧ t.cfgQ = [] ∧ t.ssaQ = []

/-- A run of the analysis with drains in any order: drain, complete, and again while the
completion forces a value.  `P` holds wherever a drain ends. -/
inductive Analysis (P : Sccp → Prop) : Sccp → Sccp → Prop
  | stop {s t : Sccp} (hDrain : Drains g F s t) (hEnd : P t) (hDone : (t.complete g).2 = false) :
      Analysis P s t
  | resume {s t u v : Sccp} (hDrain : Drains g F s t) (hEnd : P t)
      (hForced : t.complete g = (u, true)) (hRest : Analysis P u v) : Analysis P s v

/-- `b` is a merge that takes control straight from `a`. -/
def MergeEdge (a b : NodeId) : Prop :=
  b ∈ Sccp.ctrlUsers g a ∧ isRegionLikeK (g.kind b) = true

/-- No circle of merges that lead straight into each other. -/
def NoMergeCycle : Prop := ∀ n, ¬ Relation.TransGen (MergeEdge g) n n

/-- What an identity or null test reads and knows not to be null starts without a
constant: an allocation, a load, an argument, but no phi and no operation. -/
def TestsUntracked : Prop :=
  ∀ n x slot, g.live n = true → (g.kind n = .isNull ∨ g.kind n = .refEq) →
    g.input n slot = some x → g.isNeverNullNode x = true → seedVal g x = .bot

/-- Every executable node in front of a merge passes control to it: it is no guard whose
condition is unresolved or the constant zero. -/
def MergesEntered (s : Sccp) : Prop :=
  ∀ r pred j, g.live r = true → isRegionLikeK (g.kind r) = true → g.input r j = some pred →
    g.live pred = true → s.exec pred = true → r ∈ s.flowTargets g pred

end

variable {g : Graph} {F : FloatOps} {s s' t t' : Sccp}

/-! ## Values only descend -/

/-- Every value stands still or goes down a level; marks are added only. -/
structure Falls (s s' : Sccp) : Prop where
  val : ∀ n, s'.val n = s.val n ∨ (s.val n).rank < (s'.val n).rank
  exec : ∀ n, s.exec n = true → s'.exec n = true

theorem Falls.refl (s : Sccp) : Falls s s := ⟨fun _ => Or.inl rfl, fun _ h => h⟩

theorem Falls.trans {s'' : Sccp} (h : Falls s s') (h' : Falls s' s'') : Falls s s'' := by
  refine ⟨fun n => ?_, fun n hn => h'.exec n (h.exec n hn)⟩
  rcases h.val n with hSame | hLess
  · rw [← hSame]
    exact h'.val n
  · rcases h'.val n with hSame' | hLess'
    · rw [hSame']
      exact Or.inr hLess
    · exact Or.inr (Nat.lt_trans hLess hLess')

/-- To go down a level is to descend in the lattice. -/
theorem Falls.descends (h : Falls s s') : Descends s s' := by
  refine ⟨fun n => ?_, h.exec⟩
  rcases h.val n with hSame | hLess
  · exact le_of_eq hSame
  · cases hOld : s.val n <;> cases hNew : s'.val n <;> rw [hOld, hNew] at hLess <;>
      simp [Flat.rank, Flat.bot_le, Flat.le_top] at hLess ⊢

theorem falls_of_fields (hVal : s'.val = s.val) (hExec : ∀ n, s.exec n = true → s'.exec n = true) :
    Falls s s' :=
  ⟨fun n => Or.inl (by rw [hVal]), hExec⟩

theorem falls_setVal {n : NodeId} {v : Flat ConstVal} (hRank : (s.val n).rank < v.rank) :
    Falls s ((s.setVal n v).pushUsersOf g n) := by
  have hWoken := pushUser_all (g := g) ((g.usesOf n).map Use.user) (s.setVal n v)
  refine ⟨fun m => ?_, fun m hm => ?_⟩
  · rw [Sccp.pushUsersOf, hWoken.val]
    by_cases hm : m = n
    · rw [hm, setVal_val_self]
      exact Or.inr hRank
    · exact Or.inl (setVal_val_of_ne hm)
  · rw [Sccp.pushUsersOf, hWoken.exec]
    exact hm

theorem exec_processCfg (n : NodeId) (m : NodeId) (hm : s.exec m = true) :
    (Sccp.processCfg g s n).exec m = true := by
  rcases processCfg_cases (g := g) s n with ⟨-, hEq⟩ | ⟨-, hEq⟩ <;> rw [hEq]
  · apply (marked_all _ _).exec
    rw [(wakePhis_spec s n).2.1]
    exact hm
  · exact hm

theorem falls_processSsa (n : NodeId) : Falls s (Sccp.processSsa g F s n) := by
  rcases processSsa_cases (g := g) (F := F) s n with ⟨-, hRank, hEq⟩ | ⟨-, hEq⟩ <;> rw [hEq]
  · exact falls_setVal hRank
  · exact Falls.refl s

variable {p : Pick} {picks : List Pick}

/-- A step takes a control node or a value off its list. -/
theorem take_cases (hTake : s.take g F p = some s') :
    (∃ n ∈ s.cfgQ, s' = Sccp.processCfg g { s with cfgQ := s.cfgQ.erase n } n) ∨
      ∃ n ∈ s.ssaQ, s' = Sccp.processSsa g F { s with ssaQ := s.ssaQ.erase n } n := by
  cases p with
  | cfg n =>
    obtain ⟨hMem, hStep⟩ := Option.ite_none_right_eq_some.mp hTake
    exact Or.inl ⟨n, hMem, (Option.some.inj hStep).symm⟩
  | ssa n =>
    obtain ⟨hMem, hStep⟩ := Option.ite_none_right_eq_some.mp hTake
    exact Or.inr ⟨n, hMem, (Option.some.inj hStep).symm⟩

theorem falls_take (hTake : s.take g F p = some s') : Falls s s' := by
  obtain ⟨n, -, rfl⟩ | ⟨n, -, rfl⟩ := take_cases hTake
  · exact falls_of_fields processCfg_val
      (exec_processCfg (s := { s with cfgQ := s.cfgQ.erase n }) n)
  · have hStep := falls_processSsa (g := g) (F := F) (s := { s with ssaQ := s.ssaQ.erase n }) n
    exact ⟨hStep.val, hStep.exec⟩

/-- What every step keeps holds wherever an order leads. -/
theorem follow_keeps {P : Sccp → Prop}
    (hStep : ∀ {s p s'}, P s → Sccp.take g F s p = some s' → P s') (h : P s)
    (hFollow : Sccp.follow g F picks s = some s') : P s' := by
  induction picks generalizing s with
  | nil =>
    cases hFollow
    exact h
  | cons p picks ih =>
    obtain ⟨t, hTake, hRest⟩ := Option.bind_eq_some_iff.mp hFollow
    exact ih (hStep h hTake) hRest

theorem falls_follow (hFollow : Sccp.follow g F picks s = some s') : Falls s s' :=
  follow_keeps (P := Falls s) (fun h hTake => h.trans (falls_take hTake)) (Falls.refl s) hFollow

theorem falls_complete (s : Sccp) : Falls s (s.complete g).1 := by
  refine (range g.nodeCount).foldlRecOn (motive := fun p : Sccp × Bool => Falls s p.1) _
    (Falls.refl s) fun p h n _ => h.trans ?_
  unfold Sccp.completeNode
  split
  · rename_i hTop
    apply falls_setVal
    simp only [Sccp.isUnresolved, Bool.and_eq_true, beq_iff_eq] at hTop
    rw [hTop.1.1.2]
    decide
  · exact Falls.refl p.1

/-! ## Every drain is finite -/

/-- How far values and marks can still move. -/
def potential (g : Graph) (s : Sccp) : Nat :=
  ∑ n ∈ Finset.range g.nodeCount, ((2 - (s.val n).rank) + if s.exec n then 0 else 1)

theorem rank_le (v : Flat ConstVal) : v.rank ≤ 2 := by
  cases v <;> simp [Flat.rank]

theorem Falls.rank_le_rank (h : Falls s s') (n : NodeId) : (s.val n).rank ≤ (s'.val n).rank := by
  rcases h.val n with hSame | hLess
  · rw [hSame]
  · exact le_of_lt hLess

theorem Falls.mark_le (h : Falls s s') (n : NodeId) :
    (if s'.exec n then 0 else 1) ≤ (if s.exec n then 0 else 1) := by
  by_cases hOld : s.exec n = true
  · rw [if_pos hOld, if_pos (h.exec n hOld)]
  · rw [if_neg hOld]
    split_ifs
    · exact Nat.zero_le 1
    · exact le_rfl

theorem Falls.summand_le (h : Falls s s') (n : NodeId) :
    (2 - (s'.val n).rank) + (if s'.exec n then 0 else 1) ≤
      (2 - (s.val n).rank) + if s.exec n then 0 else 1 :=
  Nat.add_le_add (Nat.sub_le_sub_left (h.rank_le_rank n) 2) (h.mark_le n)

theorem Falls.potential_le (h : Falls s s') : potential g s' ≤ potential g s :=
  Finset.sum_le_sum fun n _ => h.summand_le n

/-- A value that went down or a mark that is new counts. -/
theorem Falls.potential_lt (h : Falls s s') {n : NodeId} (hn : n < g.nodeCount)
    (hMoved : (s.val n).rank < (s'.val n).rank ∨ s.exec n = false ∧ s'.exec n = true) :
    potential g s' < potential g s := by
  refine Finset.sum_lt_sum (fun m _ => h.summand_le m) ⟨n, Finset.mem_range.mpr hn, ?_⟩
  rcases hMoved with hLess | ⟨hOld, hNew⟩
  · refine Nat.add_lt_add_of_lt_of_le ?_ (h.mark_le n)
    have hRank := rank_le (s'.val n)
    omega
  · refine Nat.add_lt_add_of_le_of_lt (Nat.sub_le_sub_left (h.rank_le_rank n) 2) ?_
    rw [hOld, hNew]
    decide

/-- The merges that take control straight from a node, with repetitions. -/
def mergesAfter (g : Graph) (n : NodeId) : List NodeId :=
  (Sccp.ctrlUsers g n).filter fun u => isRegionLikeK (g.kind u)

theorem mem_mergesAfter {n u : NodeId} : u ∈ mergesAfter g n ↔ MergeEdge g n u := by
  rw [mergesAfter, mem_filter, MergeEdge]

/-- What a pending control node can still put on the lists without moving any value or
mark: itself, the phis of its merge and the merges behind it. -/
def Weighs (g : Graph) (w : NodeId → Nat) : Prop :=
  ∀ n, 1 + (Sccp.phiUsers g n).length + ((mergesAfter g n).map w).sum ≤ w n

theorem live_of_ctrlUsers {n u : NodeId} (h : u ∈ Sccp.ctrlUsers g n) : g.live u = true := by
  simp only [Sccp.ctrlUsers, mem_map, mem_filter, Bool.and_eq_true] at h
  obtain ⟨use, ⟨-, ⟨hLive, -⟩, -⟩, rfl⟩ := h
  exact hLive

theorem wellFounded_mergeEdge (hCycle : NoMergeCycle g) :
    WellFounded fun u n => MergeEdge g n u := by
  have hTrans : WellFounded fun u n : Fin g.nodeCount =>
      Relation.TransGen (MergeEdge g) n.1 u.1 := by
    have : IsTrans (Fin g.nodeCount) fun u n => Relation.TransGen (MergeEdge g) n.1 u.1 :=
      ⟨fun _ _ _ h h' => h'.trans h⟩
    have : Std.Irrefl fun u n : Fin g.nodeCount => Relation.TransGen (MergeEdge g) n.1 u.1 :=
      ⟨fun n => hCycle n.1⟩
    exact Finite.wellFounded_of_trans_of_irrefl _
  have hAcc : ∀ n : Fin g.nodeCount, Acc (fun u n => MergeEdge g n u) n.1 := by
    intro n
    induction n using hTrans.induction with
    | _ n ih =>
      refine Acc.intro _ fun u hEdge => ?_
      have hu : u < g.nodeCount := (live_iff.mp (live_of_ctrlUsers hEdge.1)).1
      exact ih ⟨u, hu⟩ (Relation.TransGen.single hEdge)
  refine ⟨fun n => Acc.intro _ fun u hEdge => ?_⟩
  exact hAcc ⟨u, (live_iff.mp (live_of_ctrlUsers hEdge.1)).1⟩

/-- Without a circle of merges there are such weights. -/
theorem exists_weighs (hCycle : NoMergeCycle g) : ∃ w, Weighs g w := by
  have hWf := wellFounded_mergeEdge hCycle
  let w : NodeId → Nat := hWf.fix fun n rec =>
    1 + (Sccp.phiUsers g n).length +
      ((mergesAfter g n).attach.map fun u => rec u.1 (mem_mergesAfter.mp u.2)).sum
  refine ⟨w, fun n => ?_⟩
  have hFix : w n = 1 + (Sccp.phiUsers g n).length +
      ((mergesAfter g n).attach.map fun u => w u.1).sum := hWf.fix_eq _ n
  rw [hFix, attach_map_val]

/-! ## What a step puts on the lists -/

/-- Nodes were appended to the lists, none that was there and none twice. -/
structure Grown (g : Graph) (s s' : Sccp) : Prop where
  cfgQ : ∃ added, s'.cfgQ = s.cfgQ ++ added ∧ added.Nodup ∧
    ∀ n ∈ added, n < g.nodeCount ∧ n ∉ s.cfgQ
  ssaQ : ∃ added, s'.ssaQ = s.ssaQ ++ added ∧ added.Nodup ∧
    ∀ n ∈ added, n < g.nodeCount ∧ n ∉ s.ssaQ

theorem grown_of_lists (hCfg : s'.cfgQ = s.cfgQ) (hSsa : s'.ssaQ = s.ssaQ) : Grown g s s' :=
  ⟨⟨[], by rw [hCfg, append_nil], nodup_nil, fun n hn => absurd hn not_mem_nil⟩,
    ⟨[], by rw [hSsa, append_nil], nodup_nil, fun n hn => absurd hn not_mem_nil⟩⟩

theorem appended_trans {bound : Nat} {l l' l'' : List NodeId}
    (h : ∃ added, l' = l ++ added ∧ added.Nodup ∧ ∀ n ∈ added, n < bound ∧ n ∉ l)
    (h' : ∃ added, l'' = l' ++ added ∧ added.Nodup ∧ ∀ n ∈ added, n < bound ∧ n ∉ l') :
    ∃ added, l'' = l ++ added ∧ added.Nodup ∧ ∀ n ∈ added, n < bound ∧ n ∉ l := by
  obtain ⟨added, rfl, hNodup, hAdded⟩ := h
  obtain ⟨added', rfl, hNodup', hAdded'⟩ := h'
  refine ⟨added ++ added', append_assoc _ _ _, ?_, ?_⟩
  · refine nodup_append.mpr ⟨hNodup, hNodup', ?_⟩
    rintro n hn m hm rfl
    exact (hAdded' n hm).2 (mem_append_right _ hn)
  · intro n hn
    rcases mem_append.mp hn with hn | hn
    · exact hAdded n hn
    · exact ⟨(hAdded' n hn).1, fun hOld => (hAdded' n hn).2 (mem_append_left _ hOld)⟩

theorem Grown.trans {s'' : Sccp} (h : Grown g s s') (h' : Grown g s' s'') : Grown g s s'' :=
  ⟨appended_trans h.cfgQ h'.cfgQ, appended_trans h.ssaQ h'.ssaQ⟩

theorem grown_pushCfg (s : Sccp) (n : NodeId) : Grown g s (s.pushCfg g n) := by
  unfold Sccp.pushCfg
  split
  · rename_i h
    simp only [Bool.and_eq_true, Bool.not_eq_true', contains_eq_mem,
      decide_eq_false_iff_not] at h
    refine ⟨⟨[n], rfl, nodup_singleton n, fun m hm => ?_⟩, (grown_of_lists rfl rfl).ssaQ⟩
    rw [mem_singleton.mp hm]
    exact ⟨(live_iff.mp h.1).1, h.2⟩
  · exact grown_of_lists rfl rfl

theorem grown_pushSsa (s : Sccp) (n : NodeId) : Grown g s (s.pushSsa g n) := by
  unfold Sccp.pushSsa
  split
  · rename_i h
    simp only [Bool.and_eq_true, Bool.not_eq_true', contains_eq_mem,
      decide_eq_false_iff_not] at h
    refine ⟨(grown_of_lists rfl rfl).cfgQ, ⟨[n], rfl, nodup_singleton n, fun m hm => ?_⟩⟩
    rw [mem_singleton.mp hm]
    exact ⟨(live_iff.mp h.1).1, h.2⟩
  · exact grown_of_lists rfl rfl

theorem grown_foldl {push : Sccp → NodeId → Sccp} (hPush : ∀ s n, Grown g s (push s n))
    (l : List NodeId) : ∀ s, Grown g s (l.foldl push s) := by
  induction l with
  | nil => exact fun s => grown_of_lists rfl rfl
  | cons n l ih => exact fun s => (hPush s n).trans (ih (push s n))

theorem grown_pushUser (s : Sccp) (u : NodeId) : Grown g s (s.pushUser g u) := by
  unfold Sccp.pushUser
  split_ifs
  · exact grown_pushCfg s u
  · exact grown_pushSsa s u
  all_goals exact grown_of_lists rfl rfl

theorem grown_setExec_pushCfg (s : Sccp) (u : NodeId) : Grown g s ((s.setExec u).pushCfg g u) := by
  obtain ⟨hCfg, hSsa⟩ := grown_pushCfg (g := g) (s.setExec u) u
  exact ⟨hCfg, hSsa⟩

theorem grown_markCtrlUser (s : Sccp) (u : NodeId) : Grown g s (s.markCtrlUser g u) := by
  unfold Sccp.markCtrlUser
  split_ifs
  · exact grown_setExec_pushCfg s u
  · exact grown_of_lists rfl rfl
  · exact grown_setExec_pushCfg s u
  · exact grown_of_lists rfl rfl

/-! ## The measure -/

section Measure

variable {w : NodeId → Nat}

/-- The weight of what is pending. -/
def load (w : NodeId → Nat) (s : Sccp) : Nat := (s.cfgQ.map w).sum + s.ssaQ.length

/-- The weight of all nodes on both lists. -/
def capacity (g : Graph) (w : NodeId → Nat) : Nat :=
  (∑ n ∈ Finset.range g.nodeCount, w n) + g.nodeCount

theorem Grown.load_le (h : Grown g s s') (w : NodeId → Nat) :
    load w s' ≤ load w s + capacity g w := by
  obtain ⟨cs, hCfg, hCs, hNewCs⟩ := h.cfgQ
  obtain ⟨vs, hSsa, hVs, hNewVs⟩ := h.ssaQ
  have hSum : (cs.map w).sum ≤ ∑ n ∈ Finset.range g.nodeCount, w n := by
    rw [← sum_toFinset w hCs]
    apply Finset.sum_le_sum_of_subset
    intro n hn
    exact Finset.mem_range.mpr (hNewCs n (mem_toFinset.mp hn)).1
  have hLength : vs.length ≤ g.nodeCount := by
    rw [← toFinset_card_of_nodup hVs, ← Finset.card_range g.nodeCount]
    apply Finset.card_le_card
    intro n hn
    exact Finset.mem_range.mpr (hNewVs n (mem_toFinset.mp hn)).1
  rw [load, load, capacity, hCfg, hSsa, map_append, sum_append, length_append]
  omega

/-- A step either moves a value or a mark, or it takes away more than it adds. -/
def Spends (g : Graph) (w : NodeId → Nat) (s s' : Sccp) : Prop :=
  (potential g s' < potential g s ∧ load w s' ≤ load w s + capacity g w) ∨
    (potential g s' ≤ potential g s ∧ load w s' < load w s)

/-- What is left to spend. -/
def remaining (g : Graph) (w : NodeId → Nat) (s : Sccp) : Nat :=
  potential g s * (capacity g w + 1) + load w s

theorem Spends.remaining_lt (h : Spends g w s s') : remaining g w s' < remaining g w s := by
  unfold remaining
  rcases h with ⟨hLess, hLoad⟩ | ⟨hLe, hLoad⟩
  · have hMul : (potential g s' + 1) * (capacity g w + 1) ≤
        potential g s * (capacity g w + 1) := Nat.mul_le_mul_right _ hLess
    rw [Nat.add_mul, Nat.one_mul] at hMul
    omega
  · have hMul : potential g s' * (capacity g w + 1) ≤ potential g s * (capacity g w + 1) :=
      Nat.mul_le_mul_right _ hLe
    omega

theorem load_pushCfg_le (w : NodeId → Nat) (s : Sccp) (n : NodeId) :
    load w (s.pushCfg g n) ≤ load w s + w n := by
  unfold Sccp.pushCfg load
  split
  · simp only [map_append, sum_append, map_cons, map_nil, sum_cons, sum_nil]
    omega
  · omega

theorem load_foldl_pushSsa_le (w : NodeId → Nat) (l : List NodeId) : ∀ s : Sccp,
    load w (l.foldl (Sccp.pushSsa g) s) ≤ load w s + l.length := by
  induction l with
  | nil => exact fun s => le_rfl
  | cons n l ih =>
    intro s
    have hOne : load w (s.pushSsa g n) ≤ load w s + 1 := by
      unfold Sccp.pushSsa load
      split
      · simp only [length_append, length_singleton]
        omega
      · omega
    have hRest := ih (s.pushSsa g n)
    rw [foldl_cons, length_cons]
    omega

/-- Marking one control user: a new mark, or a merge that is queued again, or nothing. -/
theorem markCtrlUser_spends (w : NodeId → Nat) (s : Sccp) (u : NodeId) :
    potential g (s.markCtrlUser g u) < potential g s ∨
      (potential g (s.markCtrlUser g u) ≤ potential g s ∧ load w (s.markCtrlUser g u) ≤
          load w s + (([u].filter fun u => isRegionLikeK (g.kind u)).map w).sum) := by
  have hFalls : Falls s (s.markCtrlUser g u) :=
    falls_of_fields (marked_one u).val (marked_one u).exec
  cases hLive : g.live u with
  | false =>
    have hSame : s.markCtrlUser g u = s := by simp [Sccp.markCtrlUser, hLive]
    rw [hSame]
    exact Or.inr ⟨le_rfl, Nat.le_add_right _ _⟩
  | true =>
    cases hExec : s.exec u with
    | false =>
      have hMark := (marked_one (g := g) (s := s) u).reached u (mem_singleton.mpr rfl) hLive
      exact Or.inl (hFalls.potential_lt (live_iff.mp hLive).1 (Or.inr ⟨hExec, hMark⟩))
    | true =>
      refine Or.inr ⟨hFalls.potential_le, ?_⟩
      cases hMerge : isRegionLikeK (g.kind u) with
      | true =>
        have hLoad := load_pushCfg_le (g := g) w (s.setExec u) u
        have hSame : load w (s.setExec u) = load w s := rfl
        simp only [Sccp.markCtrlUser, hLive, hMerge, if_true, filter_cons,
          filter_nil, map_cons, map_nil, sum_cons, sum_nil]
        omega
      | false => simp [Sccp.markCtrlUser, hLive, hMerge, hExec]

theorem foldl_markCtrlUser_spends (w : NodeId → Nat) (l : List NodeId) : ∀ s : Sccp,
    potential g (l.foldl (Sccp.markCtrlUser g) s) < potential g s ∨
      (potential g (l.foldl (Sccp.markCtrlUser g) s) ≤ potential g s ∧
        load w (l.foldl (Sccp.markCtrlUser g) s) ≤
          load w s + ((l.filter fun u => isRegionLikeK (g.kind u)).map w).sum) := by
  induction l with
  | nil => exact fun s => Or.inr ⟨le_rfl, le_rfl⟩
  | cons u l ih =>
    intro s
    have hOne := markCtrlUser_spends (g := g) w s u
    have hRest := ih (s.markCtrlUser g u)
    have hSplit : (((u :: l).filter fun u => isRegionLikeK (g.kind u)).map w).sum =
        (([u].filter fun u => isRegionLikeK (g.kind u)).map w).sum +
          ((l.filter fun u => isRegionLikeK (g.kind u)).map w).sum := by
      rw [← sum_append, ← map_append, ← filter_append, singleton_append]
    rw [foldl_cons, hSplit]
    omega

/-- Only control users are merges; projections are not. -/
theorem sum_flowTargets_le (w : NodeId → Nat) (s : Sccp) (n : NodeId) :
    (((s.flowTargets g n).filter fun u => isRegionLikeK (g.kind u)).map w).sum ≤
      ((mergesAfter g n).map w).sum := by
  have hProj : ∀ k, isRegionLikeK k = false →
      (Sccp.projectionOf g n k).toList.filter (fun u => isRegionLikeK (g.kind u)) = [] := by
    intro k hk
    rw [filter_eq_nil_iff]
    intro u hu
    rw [Option.mem_toList] at hu
    obtain ⟨use, hUse, rfl⟩ := Option.map_eq_some_iff.mp hu
    have hFound := find?_some hUse
    simp only [Bool.and_eq_true, beq_iff_eq] at hFound
    rw [hFound.2, hk]
    decide
  have hSwitch : (Sccp.switchProjections g n).filter (fun u => isRegionLikeK (g.kind u)) = [] := by
    rw [filter_eq_nil_iff]
    intro u hu
    simp only [Sccp.switchProjections, mem_map, mem_filter, Bool.and_eq_true,
      Bool.or_eq_true, beq_iff_eq] at hu
    obtain ⟨use, ⟨-, -, hKind⟩, rfl⟩ := hu
    rcases hKind with hKind | hKind <;> rw [hKind] <;> decide
  have hNone : ∀ l : List NodeId, l.filter (fun u => isRegionLikeK (g.kind u)) = [] →
      ((l.filter fun u => isRegionLikeK (g.kind u)).map w).sum ≤ ((mergesAfter g n).map w).sum := by
    intro l hl
    rw [hl]
    exact Nat.zero_le _
  unfold Sccp.flowTargets
  split
  · split
    · exact hNone _ rfl
    split
    · exact hNone _ rfl
    · apply hNone
      split
      all_goals exact hProj _ rfl
    · apply hNone
      rw [filter_append, hProj .ifTrue rfl, hProj .ifFalse rfl]
      rfl
  · exact hNone _ hSwitch
  · split
    · exact hNone _ rfl
    split
    · exact hNone _ rfl
    · split
      · exact hNone _ rfl
      · exact le_rfl
    · exact le_rfl
  · exact hNone _ rfl
  · exact hNone _ rfl
  · exact hNone _ rfl
  · exact hNone _ rfl
  · exact le_rfl

theorem processCfg_spends (hW : Weighs g w) {n : NodeId} (hMem : n ∈ s.cfgQ) :
    Spends g w s (Sccp.processCfg g { s with cfgQ := s.cfgQ.erase n } n) := by
  have hErase : load w s = load w { s with cfgQ := s.cfgQ.erase n } + w n := by
    simp only [load]
    rw [← sum_map_erase w hMem]
    omega
  have hWeight := hW n
  generalize hRest : ({ s with cfgQ := s.cfgQ.erase n } : Sccp) = rest at hErase ⊢
  have hPot : potential g rest = potential g s := by rw [← hRest]; rfl
  rcases processCfg_cases (g := g) rest n with ⟨-, hEq⟩ | ⟨-, hEq⟩ <;> rw [hEq]
  · have hWoken : potential g (rest.wakePhis g n) = potential g rest := by
      rw [potential, (wakePhis_spec rest n).1, (wakePhis_spec rest n).2.1]
      rfl
    have hPhis : load w (rest.wakePhis g n) ≤ load w rest + (Sccp.phiUsers g n).length ∧
        Grown g rest (rest.wakePhis g n) := by
      unfold Sccp.wakePhis
      split
      · exact ⟨load_foldl_pushSsa_le w _ rest, grown_foldl grown_pushSsa _ rest⟩
      · exact ⟨Nat.le_add_right _ _, grown_of_lists rfl rfl⟩
    generalize rest.wakePhis g n = woken at hWoken hPhis
    have hAll :=
      (hPhis.2.trans (grown_foldl grown_markCtrlUser (woken.flowTargets g n) woken)).load_le w
    have hFlow := sum_flowTargets_le (g := g) w woken n
    rcases foldl_markCtrlUser_spends (g := g) w (woken.flowTargets g n) woken with
      hLess | ⟨hLe, hLoad⟩
    · exact Or.inl ⟨by omega, by omega⟩
    · exact Or.inr ⟨by omega, by omega⟩
  · exact Or.inr ⟨le_of_eq hPot, by omega⟩

theorem processSsa_spends (w : NodeId → Nat) {n : NodeId} (hMem : n ∈ s.ssaQ) :
    Spends g w s (Sccp.processSsa g F { s with ssaQ := s.ssaQ.erase n } n) := by
  have hErase : load w s = load w { s with ssaQ := s.ssaQ.erase n } + 1 := by
    have hLength := length_erase_of_mem hMem
    have hPos := length_pos_of_mem hMem
    simp only [load]
    omega
  generalize hRest : ({ s with ssaQ := s.ssaQ.erase n } : Sccp) = rest at hErase ⊢
  have hPot : potential g rest = potential g s := by rw [← hRest]; rfl
  rcases processSsa_cases (g := g) (F := F) rest n with ⟨hEval, hRank, hEq⟩ | ⟨-, hEq⟩ <;> rw [hEq]
  · left
    have hLoad := (grown_foldl (g := g) grown_pushUser ((g.usesOf n).map Use.user)
      (rest.setVal n (rest.evalNode g F n))).load_le w
    have hSame : load w (rest.setVal n (rest.evalNode g F n)) = load w rest := rfl
    have hLess := (falls_setVal (g := g) hRank).potential_lt (live_iff.mp hEval.1).1 (Or.inl (by
      rw [pushUsersOf_val, setVal_val_self]
      exact hRank))
    refine ⟨by omega, ?_⟩
    rw [Sccp.pushUsersOf]
    omega
  · exact Or.inr ⟨le_of_eq hPot, by omega⟩

theorem take_spends (hW : Weighs g w) {p : Pick} (hTake : s.take g F p = some s') :
    Spends g w s s' := by
  obtain ⟨n, hMem, rfl⟩ | ⟨n, hMem, rfl⟩ := take_cases hTake
  · exact processCfg_spends hW hMem
  · exact processSsa_spends w hMem

/-- No order has more steps than there is to spend. -/
theorem length_le_remaining (hW : Weighs g w) {picks : List Pick}
    (hFollow : Sccp.follow g F picks s = some s') : picks.length ≤ remaining g w s := by
  induction picks generalizing s with
  | nil => exact Nat.zero_le _
  | cons p picks ih =>
    obtain ⟨t, hTake, hRest⟩ := Option.bind_eq_some_iff.mp hFollow
    have hLess := (take_spends hW hTake).remaining_lt
    have hLe := ih hRest
    rw [length_cons]
    omega

end Measure

/-- While something is pending, there is a next step. -/
theorem exists_take (hPending : ¬ (s.cfgQ = [] ∧ s.ssaQ = [])) :
    ∃ p s', s.take g F p = some s' := by
  cases hCfg : s.cfgQ with
  | cons n rest =>
    refine ⟨.cfg n, _, if_pos ?_⟩
    rw [hCfg]
    exact mem_cons_self
  | nil =>
    cases hSsa : s.ssaQ with
    | cons n rest =>
      refine ⟨.ssa n, _, if_pos ?_⟩
      rw [hSsa]
      exact mem_cons_self
    | nil => exact absurd ⟨hCfg, hSsa⟩ hPending

theorem nullConsistent_of_untracked (hTests : TestsUntracked g) : NullConsistent g := by
  intro n x slot hLive hKind hInput hNever hMerges
  have hSeed := hTests n x slot hLive hKind hInput hNever
  unfold seedVal at hSeed
  split at hSeed
  · cases hMerges with
    | const hConst =>
      rename_i hLiveX
      have hDead : (g.node x).dead = false := (live_iff.mp hLiveX).2
      have hConst' : (g.node x).kind = .constantNull := hConst
      have hNull : constOf g x = some .null := by
        simp only [constOf, hDead, hConst', Bool.false_eq_true, if_false]
      rw [hNull] at hSeed
      cases hSeed
    | phi hPhi =>
      have hNone : constOf g x = none := constOf_eq_none_of_eval (by simp [hPhi])
      rw [hNone] at hSeed
      simp [hPhi] at hSeed
  · cases hSeed

theorem operand_untracked (hTests : TestsUntracked g) (hList : Listed g F s) {n : NodeId}
    (slot : Nat) (hLive : g.live n = true) (hKind : g.kind n = .refEq)
    (hNever : Sccp.neverNullInput g n slot = true) : s.operand g n slot = .bot := by
  unfold Sccp.neverNullInput at hNever
  unfold Sccp.operand
  cases hInput : g.input n slot with
  | none => rfl
  | some x =>
    rw [hInput] at hNever
    simp only [Bool.and_eq_true] at hNever
    have hSeed := hTests n x slot hLive (Or.inr hKind) hInput hNever.2
    have hNot : ¬ Evaluable g x := by
      intro hEval
      rw [seedVal, if_pos hNever.1, constOf_eq_none_of_eval hEval.2] at hSeed
      simp [hEval.2] at hSeed
    simp only [Sccp.valAt]
    rw [hList.seeded x hNot, hSeed, ite_self]

theorem evalNode_mono (hTests : TestsUntracked g) (hList : Listed g F s) (hList' : Listed g F s')
    (h : Descends s s') {n : NodeId} (hLive : g.live n = true) :
    s'.evalNode g F n ≤ s.evalNode g F n := by
  by_cases hRef : g.kind n = .refEq
  · have hOld (slot : Nat) := operand_untracked hTests hList slot hLive hRef
    have hNew (slot : Nat) := operand_untracked hTests hList' slot hLive hRef
    have hOld0 := hOld 0
    have hOld1 := hOld 1
    have hNew0 := hNew 0
    have hNew1 := hNew 1
    have hLeft := h.operand (g := g) n 0
    have hRight := h.operand (g := g) n 1
    simp only [Sccp.evalNode, hRef, reduceCtorEq, or_self, if_false, if_true]
    unfold Sccp.evalRefEq
    generalize s.operand g n 0 = a at *
    generalize s.operand g n 1 = b at *
    generalize s'.operand g n 0 = a' at *
    generalize s'.operand g n 1 = b' at *
    generalize Sccp.neverNullInput g n 0 = p at *
    generalize Sccp.neverNullInput g n 1 = q at *
    by_cases hSame : (g.input n 0).isSome = true ∧ g.input n 0 = g.input n 1
    · simp only [if_pos hSame]
      exact le_refl _
    · simp only [if_neg hSame]
      rw [Flat.le_def] at hLeft hRight ⊢
      clear hOld hNew
      grind
  · have hFloor := evalFloor_mono (F := F) (nullConsistent_of_untracked hTests)
      hList.nullSourced hList'.nullSourced h hLive
    simpa only [evalFloor, if_neg hRef] using hFloor

/-- A lower state passes control to at least as many nodes. -/
theorem flowTargets_mono (h : Descends s s') {n u : NodeId} (hMem : u ∈ s.flowTargets g n) :
    u ∈ s'.flowTargets g n := by
  unfold Sccp.flowTargets at hMem ⊢
  split at hMem
  · cases hInput : g.input n 1 with
    | none =>
      rw [hInput] at hMem
      cases hMem
    | some c =>
      have hLe := h.valAt (g := g) c
      rw [hInput] at hMem
      dsimp only at hMem ⊢
      generalize s.valAt g c = a at hMem hLe
      generalize s'.valAt g c = a' at hLe ⊢
      rcases hLe with rfl | rfl | rfl
      · rw [mem_append]
        cases a with
        | top => cases hMem
        | const v =>
          cases v with
          | i v =>
            dsimp only at hMem
            split at hMem
            · exact Or.inl hMem
            · exact Or.inr hMem
          | _ => exact mem_append.mp hMem
        | bot => exact mem_append.mp hMem
      · cases hMem
      · exact hMem
  · exact hMem
  · cases hInput : g.input n 1 with
    | none =>
      rw [hInput] at hMem
      cases hMem
    | some c =>
      have hLe := h.valAt (g := g) c
      rw [hInput] at hMem
      dsimp only at hMem ⊢
      generalize s.valAt g c = a at hMem hLe
      generalize s'.valAt g c = a' at hLe ⊢
      rcases hLe with rfl | rfl | rfl
      · cases a with
        | top => cases hMem
        | const v =>
          cases v with
          | i v =>
            dsimp only at hMem
            split at hMem
            · cases hMem
            · exact hMem
          | _ => exact hMem
        | bot => exact hMem
      · cases hMem
      · exact hMem
  · cases hMem
  · cases hMem
  · cases hMem
  · cases hMem
  · exact hMem

/-! ## Closed states and confluence -/

/-- A phi without a live merge, which the source answers with no constant. -/
def Stray (g : Graph) (p : NodeId) : Prop :=
  g.live p = true ∧ g.kind p = .phi ∧
    ∀ r, g.input p 0 = some r → ¬ (g.live r = true ∧ isRegionLikeK (g.kind r) = true)

/-- What holds between the steps of a drain: the invariant of the lists, and every stray
phi is pending or settled. -/
structure Tracked (g : Graph) (F : FloatOps) (s : Sccp) : Prop where
  listed : Listed g F s
  stray : ∀ p, Stray g p → p ∈ s.ssaQ ∨ s.val p = .bot

/-- Nothing can fall any more, and no mark is missing. -/
structure Closed (g : Graph) (F : FloatOps) (t : Sccp) : Prop where
  val : ∀ n, Evaluable g n → t.val n ≤ t.evalNode g F n
  exec : ∀ n u, g.live n = true → t.exec n = true → u ∈ t.flowTargets g n → t.exec u = true

theorem evalPhi_stray {p : NodeId} (hStray : Stray g p) : s.evalPhi g p = .bot := by
  unfold Sccp.evalPhi
  cases hInput : g.input p 0 with
  | none => rfl
  | some r =>
    have hNot := hStray.2.2 r hInput
    dsimp only
    rw [if_neg]
    rw [Bool.and_eq_true]
    exact hNot

/-- A value below every operand that arrives is below the meet. -/
theorem le_phiMeet {p : NodeId} {x : Flat ConstVal} {edges : List (NodeId × Nat)} :
    ∀ {acc : Flat ConstVal}, x ≤ acc → (∀ e ∈ edges, g.live e.1 = true → s.exec e.1 = true →
        x = .bot ∨ ∃ v, g.input p (e.2 + 1) = some v ∧ x ≤ s.valAt g v) →
      x ≤ s.phiMeet g p acc edges := by
  induction edges with
  | nil => exact fun hAcc _ => hAcc
  | cons e rest ih =>
    intro acc hAcc hEdges
    obtain ⟨hHead, hRest⟩ := forall_mem_cons.mp hEdges
    obtain ⟨pred, j⟩ := e
    rw [Sccp.phiMeet]
    split
    · rename_i hFlows
      rw [Bool.and_eq_true] at hFlows
      rcases hHead hFlows.1 hFlows.2 with rfl | ⟨v, hInput, hLe⟩
      · exact Flat.bot_le _
      · rw [hInput]
        exact ih (Flat.le_meet hAcc hLe) hRest
    · exact ih hAcc hRest

theorem Tracked.closed (h : Tracked g F t) (hCfg : t.cfgQ = []) (hSsa : t.ssaQ = [])
    (hEntered : MergesEntered g t) : Closed g F t := by
  have hNoCfg : ∀ n, n ∉ t.cfgQ := by
    intro n
    rw [hCfg]
    exact not_mem_nil
  have hNoSsa : ∀ n, n ∉ t.ssaQ := by
    intro n
    rw [hSsa]
    exact not_mem_nil
  constructor
  · intro n hEval
    by_cases hPhi : g.kind n = .phi
    · have hNode : t.evalNode g F n = t.evalPhi g n := by
        simp only [Sccp.evalNode, hPhi, if_true]
      rw [hNode]
      by_cases hStray : Stray g n
      · rw [(h.stray n hStray).resolve_left (hNoSsa n)]
        exact Flat.bot_le _
      have hMerge : ∃ r, g.input n 0 = some r ∧ g.live r = true ∧
          isRegionLikeK (g.kind r) = true := by
        by_contra hNone
        refine hStray ⟨hEval.1, hPhi, fun r hInput hMerge => hNone ⟨r, hInput, hMerge⟩⟩
      obtain ⟨r, hInput, hLive, hLike⟩ := hMerge
      unfold Sccp.evalPhi
      rw [hInput]
      simp only [hLive, hLike, Bool.and_self, if_true]
      split
      · apply le_phiMeet (Flat.le_top _)
        rintro ⟨pred, j⟩ hMem hLivePred hExec
        have hEdge : g.input r j = some pred := mem_zipIdx_iff_getElem?.mp hMem
        exact h.listed.phiDone n r pred j hEval.1 hPhi (hNoSsa n) hInput hLive hLike
          (hNoCfg r) hEdge hLivePred hExec (hNoCfg pred)
          (hEntered r pred j hLive hLike hEdge hLivePred hExec)
      · exact Flat.le_top _
    · rcases h.listed.evalDone n hEval hPhi (hNoSsa n) with hBot | hSame | hTop
      · rw [hBot]
        exact Flat.bot_le _
      · exact le_of_eq hSame
      · rw [hTop]
        exact Flat.le_top _
  · intro n u hLive hExec hMem
    exact h.listed.ctrlDone n u hLive hExec (hNoCfg n) hMem

theorem mem_erase_of_ne {l : List NodeId} {n m : NodeId} (hne : m ≠ n) (hm : m ∈ l) :
    m ∈ l.erase n := (List.mem_erase_of_ne hne).mpr hm

theorem ssaQ_processCfg (n m : NodeId) (hm : m ∈ s.ssaQ) : m ∈ (Sccp.processCfg g s n).ssaQ := by
  rcases processCfg_cases (g := g) s n with ⟨-, hEq⟩ | ⟨-, hEq⟩ <;> rw [hEq]
  · rw [(marked_all _ _).ssaQ]
    exact (wakePhis_spec s n).2.2.2.1 m hm
  · exact hm

/-- Marks come from executable nodes that pass control on. -/
theorem exec_of_processCfg {n m : NodeId} (hm : (Sccp.processCfg g s n).exec m = true) :
    s.exec m = true ∨ (g.live n = true ∧ s.exec n = true ∧ m ∈ s.flowTargets g n) := by
  have hMarks (l : List NodeId) (s : Sccp) :
      (l.foldl (Sccp.markCtrlUser g) s).exec m = true → s.exec m = true ∨ m ∈ l := by
    refine l.foldlRecOn (motive := fun r : Sccp => r.exec m = true → s.exec m = true ∨ m ∈ l) _
      Or.inl fun r ih u hu hOne => ?_
    have hSet (hSet : ((r.setExec u).pushCfg g u).exec m = true) : s.exec m = true ∨ m ∈ l := by
      rcases exec_setExec_pushCfg.mp hSet with rfl | hOld
      · exact Or.inr hu
      · exact ih hOld
    unfold Sccp.markCtrlUser at hOne
    split_ifs at hOne
    · exact hSet hOne
    · exact ih hOne
    · exact hSet hOne
    · exact ih hOne
  rcases processCfg_cases (g := g) s n with ⟨⟨hLive, hExec⟩, hEq⟩ | ⟨-, hEq⟩ <;> rw [hEq] at hm
  · obtain ⟨hVal, hExec', -⟩ := wakePhis_spec (g := g) s n
    rcases hMarks _ _ hm with hOld | hNew
    · rw [hExec'] at hOld
      exact Or.inl hOld
    · rw [flowTargets_eq hVal] at hNew
      exact Or.inr ⟨hLive, hExec, hNew⟩
  · exact Or.inl hm

theorem Tracked.take (hUse : g.UseDef) (hNull : NullConsistent g) (h : Tracked g F s)
    (hTake : s.take g F p = some s') : Tracked g F s' := by
  have hFalls := falls_take hTake
  obtain ⟨n, -, rfl⟩ | ⟨n, -, rfl⟩ := take_cases hTake
  · refine ⟨processCfg_listed hUse hNull (fun m hne hm => mem_erase_of_ne hne hm) h.listed, ?_⟩
    intro q hStray
    rcases h.stray q hStray with hPend | hBot
    · exact Or.inl (ssaQ_processCfg n q hPend)
    · right
      rw [processCfg_val]
      exact hBot
  refine ⟨processSsa_listed hUse hNull (h.listed.weaken rfl rfl (fun m hm => hm) ?_), ?_⟩
  · intro m hm
    by_cases hmn : m = n
    · exact Or.inl hmn
    · exact Or.inr (mem_erase_of_ne hmn hm)
  · intro q hStray
    rcases h.stray q hStray with hPend | hBot
    · by_cases hqn : q = n
      · right
        subst hqn
        have hEval : Sccp.evalNode g F { s with ssaQ := s.ssaQ.erase q } q = .bot := by
          simp only [Sccp.evalNode, hStray.2.1, if_true]
          exact evalPhi_stray hStray
        rcases processSsa_cases (g := g) (F := F) { s with ssaQ := s.ssaQ.erase q } q with
          ⟨-, -, hEq⟩ | ⟨hRank, hEq⟩ <;> rw [hEq]
        · rw [pushUsersOf_val, setVal_val_self, hEval]
        · have hLe := hRank (evaluable_phi hStray.1 hStray.2.1)
          rw [hEval] at hLe
          exact (Flat.eq_of_le_of_rank_le (Flat.bot_le _) hLe).symm
      · left
        have hKept : q ∈ s.ssaQ.erase n := mem_erase_of_ne hqn hPend
        rcases processSsa_cases (g := g) (F := F) { s with ssaQ := s.ssaQ.erase n } n with
          ⟨-, -, hEq⟩ | ⟨-, hEq⟩ <;> rw [hEq]
        · exact (pushUser_all _ _).ssaQ q hKept
        · exact hKept
    · exact Or.inr (Flat.le_bot.mp (hBot ▸ hFalls.descends.val q))

/-- A closed state stays below whatever a drain reaches. -/
theorem Closed.take (hTests : TestsUntracked g) (hClosed : Closed g F t) (hList' : Listed g F t)
    (hList : Listed g F s) (hBelow : Descends s t) (hTake : s.take g F p = some s') :
    Descends s' t := by
  obtain ⟨n, -, rfl⟩ | ⟨n, -, rfl⟩ := take_cases hTake
  · refine ⟨fun m => ?_, fun m hm => ?_⟩
    · rw [processCfg_val]
      exact hBelow.val m
    · rcases exec_of_processCfg hm with hOld | ⟨hLive, hExec, hMem⟩
      · exact hBelow.exec m hOld
      · have hMem' : m ∈ s.flowTargets g n := hMem
        exact hClosed.exec n m hLive (hBelow.exec n hExec) (flowTargets_mono hBelow hMem')
  rcases processSsa_cases (g := g) (F := F) { s with ssaQ := s.ssaQ.erase n } n with
    ⟨hEval, -, hEq⟩ | ⟨-, hEq⟩ <;> rw [hEq]
  · refine ⟨fun m => ?_, fun m hm => ?_⟩
    · rw [pushUsersOf_val]
      by_cases hmn : m = n
      · subst hmn
        have hSame : Sccp.evalNode g F { s with ssaQ := s.ssaQ.erase m } m = s.evalNode g F m := by
          apply evalNode_eq <;> rfl
        rw [setVal_val_self, hSame]
        exact (hClosed.val m hEval).trans (evalNode_mono hTests hList hList' hBelow hEval.1)
      · rw [setVal_val_of_ne hmn]
        exact hBelow.val m
    · rw [Sccp.pushUsersOf, (pushUser_all _ _).exec] at hm
      exact hBelow.exec m hm
  · exact ⟨hBelow.val, hBelow.exec⟩

/-! ## Runs -/

/-- Every beginning of a drain can be finished. -/
theorem exists_drains {w : NodeId → Nat} (hW : Weighs g w) (s : Sccp) : ∃ t, Drains g F s t := by
  induction hLeft : remaining g w s using Nat.strongRecOn generalizing s with
  | _ left ih =>
    by_cases hPending : s.cfgQ = [] ∧ s.ssaQ = []
    · exact ⟨s, [], rfl, hPending⟩
    obtain ⟨p, s', hTake⟩ := exists_take (g := g) (F := F) hPending
    have hLess := (take_spends hW hTake).remaining_lt
    rw [hLeft] at hLess
    obtain ⟨t, picks, hFollow, hEnd⟩ := ih _ hLess s' rfl
    refine ⟨t, p :: picks, ?_, hEnd⟩
    rw [Sccp.follow, hTake]
    exact hFollow

theorem Tracked.follow (hUse : g.UseDef) (hNull : NullConsistent g) (h : Tracked g F s)
    (hFollow : Sccp.follow g F picks s = some s') : Tracked g F s' :=
  follow_keeps (fun h hTake => h.take hUse hNull hTake) h hFollow

theorem Closed.follow (hUse : g.UseDef) (hTests : TestsUntracked g) (hClosed : Closed g F t)
    (hTracked : Tracked g F t) (h : Tracked g F s) (hBelow : Descends s t)
    (hFollow : Sccp.follow g F picks s = some s') : Descends s' t :=
  (follow_keeps (P := fun r => Tracked g F r ∧ Descends r t) (fun ⟨h, hBelow⟩ hTake =>
    ⟨h.take hUse (nullConsistent_of_untracked hTests) hTake,
      hClosed.take hTests hTracked.listed h.listed hBelow hTake⟩) ⟨h, hBelow⟩ hFollow).2

/-- Two drains from one state end in one state. -/
theorem Drains.unique (hUse : g.UseDef) (hTests : TestsUntracked g) (h : Tracked g F s)
    (hDrain : Drains g F s t) (hEntered : MergesEntered g t) (hDrain' : Drains g F s t')
    (hEntered' : MergesEntered g t') : t = t' := by
  have hNull := nullConsistent_of_untracked hTests
  obtain ⟨picks, hFollow, hCfg, hSsa⟩ := hDrain
  obtain ⟨picks', hFollow', hCfg', hSsa'⟩ := hDrain'
  have hEnd := h.follow hUse hNull hFollow
  have hEnd' := h.follow hUse hNull hFollow'
  have hClosed := hEnd.closed hCfg hSsa hEntered
  have hClosed' := hEnd'.closed hCfg' hSsa' hEntered'
  have hDown := hClosed.follow hUse hTests hEnd h (falls_follow hFollow).descends hFollow'
  have hUp := hClosed'.follow hUse hTests hEnd' h (falls_follow hFollow').descends hFollow
  have hVal : t.val = t'.val := funext fun n => le_antisymm (hDown.val n) (hUp.val n)
  have hExec : t.exec = t'.exec := by
    funext n
    rw [Bool.eq_iff_iff]
    exact ⟨hUp.exec n, hDown.exec n⟩
  cases t
  cases t'
  simp only at hVal hExec hCfg hSsa hCfg' hSsa'
  rw [hVal, hExec, hCfg, hSsa, hCfg', hSsa']

theorem Tracked.complete (hUse : g.UseDef) (hNull : NullConsistent g) (h : Tracked g F s) :
    Tracked g F (s.complete g).1 := by
  refine ⟨completeAll_listed hUse hNull _ (s, false) h.listed, fun p hStray => ?_⟩
  rcases h.stray p hStray with hPend | hBot
  · left
    refine (range g.nodeCount).foldlRecOn (motive := fun q : Sccp × Bool => p ∈ q.1.ssaQ) _ hPend
      fun q hp n _ => ?_
    unfold Sccp.completeNode
    split
    · exact (pushUser_all _ _).ssaQ p hp
    · exact hp
  · exact Or.inr (Flat.le_bot.mp (hBot ▸ (falls_complete (g := g) s).descends.val p))

/-- Two analyses from one state end in one state. -/
theorem Analysis.unique (hUse : g.UseDef) (hTests : TestsUntracked g) (h : Tracked g F s)
    (hRun : Analysis g F (MergesEntered g) s t) (hRun' : Analysis g F (MergesEntered g) s t') :
    t = t' := by
  have hNull := nullConsistent_of_untracked hTests
  induction hRun with
  | stop hDrain hEnd hDone =>
    cases hRun' with
    | stop hDrain' hEnd' _ => exact hDrain.unique hUse hTests h hEnd hDrain' hEnd'
    | resume hDrain' hEnd' hForced' _ =>
      have hSame := hDrain.unique hUse hTests h hEnd hDrain' hEnd'
      rw [hSame, hForced'] at hDone
      cases hDone
  | @resume s r u v hDrain hEnd hForced hRest ih =>
    cases hRun' with
    | stop hDrain' hEnd' hDone' =>
      have hSame := hDrain.unique hUse hTests h hEnd hDrain' hEnd'
      rw [← hSame, hForced] at hDone'
      cases hDone'
    | @resume _ r' u' _ hDrain' hEnd' hForced' hRest' =>
      have hSame := hDrain.unique hUse hTests h hEnd hDrain' hEnd'
      rw [← hSame, hForced] at hForced'
      cases hForced'
      obtain ⟨picks, hFollow, -⟩ := hDrain
      have hNext := (h.follow hUse hNull hFollow).complete hUse hNull
      rw [hForced] at hNext
      exact ih hNext hRest'

/-- The seeded state satisfies what drains keep: every phi is pending. -/
theorem tracked_seed (hBuilt : Built g) : Tracked g F (Sccp.seed g) where
  listed := seed_listed hBuilt
  stray p hStray := Or.inl ((seeded_range hBuilt g.nodeCount (le_refl _)).ssaQ p
    (live_iff.mp hStray.1).1 (evaluable_phi hStray.1 hStray.2.1))

/-- The order of the source is one of the orders. -/
theorem drains_of_propagate (budget : Nat) : ∀ {s s' : Sccp} {left : Nat},
    Sccp.propagate g F budget s = some (left, s') → Drains g F s s' := by
  induction budget with
  | zero =>
    intro s s' left hRun
    simp only [Sccp.propagate] at hRun
    split at hRun
    · rename_i hEmpty
      cases hRun
      exact ⟨[], rfl, hEmpty⟩
    · cases hRun
  | succ budget ih =>
    intro s s' left hRun
    cases hCfg : s.cfgQ with
    | cons n rest =>
      simp only [Sccp.propagate, hCfg] at hRun
      obtain ⟨picks, hFollow, hEnd⟩ := ih hRun
      refine ⟨.cfg n :: picks, ?_, hEnd⟩
      have hMem : n ∈ s.cfgQ := by
        rw [hCfg]
        exact mem_cons_self
      rw [Sccp.follow, Sccp.take, if_pos hMem, hCfg, erase_cons_head]
      exact hFollow
    | nil =>
      cases hSsa : s.ssaQ with
      | cons n rest =>
        simp only [Sccp.propagate, hCfg, hSsa] at hRun
        obtain ⟨picks, hFollow, hEnd⟩ := ih hRun
        refine ⟨.ssa n :: picks, ?_, hEnd⟩
        have hMem : n ∈ s.ssaQ := by
          rw [hSsa]
          exact mem_cons_self
        rw [Sccp.follow, Sccp.take, if_pos hMem, hSsa, erase_cons_head, hCfg]
        exact hFollow
      | nil =>
        simp only [Sccp.propagate, hCfg, hSsa] at hRun
        cases hRun
        exact ⟨[], rfl, hCfg, hSsa⟩

theorem analysis_of_solve (rounds : Nat) : ∀ {budget left : Nat} {r s s' : Sccp},
    Drains g F r s → Sccp.solve g F rounds budget s = some (left, s') →
      Analysis g F (fun _ => True) r s' := by
  induction rounds with
  | zero => exact fun _ hRun => by cases hRun
  | succ rounds ih =>
    intro budget left r s s' hDrain hRun
    simp only [Sccp.solve] at hRun
    split at hRun
    · rename_i t hDone
      cases hRun
      exact .stop hDrain trivial (by rw [hDone])
    · rename_i t hForced
      split at hRun
      · cases hRun
      · rename_i budget' t' hProp
        exact .resume hDrain trivial hForced (ih (drains_of_propagate budget hProp) hRun)

theorem analysis_of_analyze {budget left : Nat} (hRun : Sccp.analyze g F budget = some (left, s)) :
    Analysis g F (fun _ => True) (Sccp.seed g) s := by
  unfold Sccp.analyze at hRun
  split at hRun
  · cases hRun
  · rename_i budget' t hProp
    exact analysis_of_solve _ (drains_of_propagate budget hProp) hRun

/-- The loop of `loopGraph` has no circle of merges. -/
theorem loopGraph_noMergeCycle : NoMergeCycle loopGraph := by
  have hInto : ∀ a b, MergeEdge loopGraph a b → b = 2 := by
    intro a b hEdge
    have hAll : ∀ b < 9, isRegionLikeK (loopGraph.kind b) = true → b = 2 := by decide
    exact hAll b (live_iff.mp (live_of_ctrlUsers hEdge.1)).1 hEdge.2
  have hFrom : ∀ b, ¬ MergeEdge loopGraph 2 b := by
    intro b hEdge
    have hb := hInto 2 b hEdge
    rw [hb] at hEdge
    exact absurd hEdge.1 (by decide)
  intro n hCycle
  obtain ⟨a, -, hLast⟩ := Relation.TransGen.tail'_iff.mp hCycle
  obtain ⟨b, hFirst, -⟩ := Relation.TransGen.head'_iff.mp hCycle
  rw [hInto a n hLast] at hFirst
  exact hFrom b hFirst

theorem loopGraph_testsUntracked : TestsUntracked loopGraph := by
  intro n x slot hLive hKind
  have hNone : ∀ n < 9, ¬ (loopGraph.kind n = .isNull ∨ loopGraph.kind n = .refEq) := by decide
  exact absurd hKind (hNone n (live_iff.mp hLive).1)

/-- A merge entered from a branch and from a guard that always fails, a phi of 5 and 7,
and a null test of a phi of null that is marked never-null. -/
def guardedMerge : Graph where
  nodes :=
    [{ kind := .start }, { kind := .constantI }, { kind := .constantI, constValue := 5 },
      { kind := .constantI, constValue := 7 }, { kind := .parameter },
      { kind := .ifNode, inputs := [0, 4] }, { kind := .ifTrue, inputs := [5] },
      { kind := .ifFalse, inputs := [5] }, { kind := .guardNode, inputs := [7, 1] },
      { kind := .region, inputs := [6, 8] }, { kind := .phi, inputs := [9, 2, 3] },
      { kind := .constantNull }, { kind := .phi, inputs := [9, 11, 11], neverNull := true },
      { kind := .isNull, inputs := [12] }, { kind := .addI, inputs := [10, 13] },
      { kind := .returnNode, inputs := [9, 14] }]
  uses :=
    [[⟨5, 0⟩], [⟨8, 1⟩], [⟨10, 1⟩], [⟨10, 2⟩], [⟨5, 1⟩], [⟨6, 0⟩, ⟨7, 0⟩], [⟨9, 0⟩], [⟨8, 0⟩],
      [⟨9, 1⟩], [⟨10, 0⟩, ⟨12, 0⟩, ⟨15, 0⟩], [⟨14, 0⟩], [⟨12, 1⟩, ⟨12, 2⟩], [⟨13, 0⟩], [⟨14, 1⟩],
      [⟨15, 1⟩], []]

/-- Control first, then values in id order, as the source does it. -/
def controlFirst : List Pick :=
  [.cfg 0, .cfg 5, .cfg 6, .cfg 7, .cfg 9, .cfg 8, .cfg 10, .cfg 12, .cfg 15, .ssa 10, .ssa 12,
    .ssa 13, .ssa 14]

/-- The null test before its operand, and the phi before the guard. -/
def guardLast : List Pick :=
  [.ssa 13, .ssa 14, .cfg 0, .cfg 5, .cfg 6, .cfg 9, .ssa 10, .ssa 12, .ssa 13, .ssa 14, .cfg 7,
    .cfg 8, .cfg 10, .cfg 12, .cfg 15]

/-- Two merges that lead straight into each other. -/
def mergeCircle : Graph where
  nodes := [{ kind := .start }, { kind := .region, inputs := [0, 2] },
    { kind := .region, inputs := [1] }]
  uses := [[⟨1, 0⟩], [⟨2, 0⟩], [⟨1, 1⟩]]

/-- Each of the two merges queues the other one, for ever. -/
theorem mergeCircle_turns (k : Nat) : ∀ s : Sccp, s.exec 1 = true → s.exec 2 = true →
    s.cfgQ = [1] ∨ s.cfgQ = [2] →
    ∃ picks s', picks.length = k ∧ Sccp.follow mergeCircle default picks s = some s' := by
  induction k with
  | zero => exact fun s _ _ _ => ⟨[], s, rfl, rfl⟩
  | succ k ih =>
    intro s h1 h2 hQueue
    have hTurn : ∀ a b : NodeId, (a = 1 ∧ b = 2) ∨ (a = 2 ∧ b = 1) → s.cfgQ = [a] →
        ∃ s', s.take mergeCircle default (.cfg a) = some s' ∧ s'.exec 1 = true ∧
          s'.exec 2 = true ∧ s'.cfgQ = [b] := by
      rintro a b hab hCfg
      have hMem : a ∈ s.cfgQ := by
        rw [hCfg]
        exact mem_cons_self
      refine ⟨_, if_pos hMem, exec_processCfg a 1 h1, exec_processCfg a 2 h2, ?_⟩
      rw [hCfg, erase_cons_head]
      rcases hab with ⟨rfl, rfl⟩ | ⟨rfl, rfl⟩
      · have hFlow : ∀ s : Sccp, s.flowTargets mergeCircle 1 = [2] := fun _ => rfl
        have hActive : (mergeCircle.live 1 && s.exec 1) = true := by
          rw [h1]
          rfl
        have hPhis : Sccp.phiUsers mergeCircle 1 = [] := rfl
        have hMerge : isRegionLikeK (mergeCircle.kind 1) = true := rfl
        simp only [Sccp.processCfg, hActive, hMerge, hPhis, if_true, foldl_nil, hFlow, foldl_cons]
        rfl
      · have hFlow : ∀ s : Sccp, s.flowTargets mergeCircle 2 = [1] := fun _ => rfl
        have hActive : (mergeCircle.live 2 && s.exec 2) = true := by
          rw [h2]
          rfl
        have hPhis : Sccp.phiUsers mergeCircle 2 = [] := rfl
        have hMerge : isRegionLikeK (mergeCircle.kind 2) = true := rfl
        simp only [Sccp.processCfg, hActive, hMerge, hPhis, if_true, foldl_nil, hFlow, foldl_cons]
        rfl
    rcases hQueue with hCfg | hCfg
    · obtain ⟨s', hTake, h1', h2', hCfg'⟩ := hTurn 1 2 (Or.inl ⟨rfl, rfl⟩) hCfg
      obtain ⟨picks, t, hLen, hFollow⟩ := ih s' h1' h2' (Or.inr hCfg')
      exact ⟨.cfg 1 :: picks, t, by rw [length_cons, hLen], by
        rw [Sccp.follow, hTake]
        exact hFollow⟩
    · obtain ⟨s', hTake, h1', h2', hCfg'⟩ := hTurn 2 1 (Or.inr ⟨rfl, rfl⟩) hCfg
      obtain ⟨picks, t, hLen, hFollow⟩ := ih s' h1' h2' (Or.inl hCfg')
      exact ⟨.cfg 2 :: picks, t, by rw [length_cons, hLen], by
        rw [Sccp.follow, hTake]
        exact hFollow⟩

/-- What an order makes of a state, at the nodes of the example. -/
def drainedTo (picks : List Pick) : Option (List (Flat ConstVal) × List NodeId × Bool) :=
  (Sccp.follow guardedMerge default picks (Sccp.seed guardedMerge)).map fun s =>
    ([s.val 10, s.val 13], s.cfgQ ++ s.ssaQ, (s.complete guardedMerge).2)

end B2Compiler.Passes
