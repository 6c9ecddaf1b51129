import B2Compiler.Ir.Rewriting
import B2Compiler.Ir.StoreRecords
import B2Compiler.Ir.StoreUses

/-!
# Calls as steps of a rewriting

Each call a rewriting pass makes is one of the two kinds of steps of `Ir.Rewriting`.
Making a node over live operands and moving the edges of a tombstone are quiet;
replacing a node and exchanging the operands of a commutative one are rewrites.
-/

namespace B2Compiler.Ir

open Lib List Option

namespace Store

variable {g : Store}

section Make

variable {kind : NodeKind} {ins : List NodeId} {p p2 : BitVec 32} {c : BitVec 64}

end Make

theorem setInput_log (n : NodeId) (slot : Nat) (v : NodeId) :
    (g.setInput n slot v).replacements = g.replacements := by
  simp only [setInput, removeFromUses]
  split_ifs <;> rfl

/-! ## Replacing a node -/

/-- One step of the rewiring loop moves one edge if it still leads to the old node. -/
theorem rewireUse_inputs (hOk : Ok g) (oldNode withNode : NodeId) (u : Use) (m : NodeId) (i : Nat) :
    ((rewireUse oldNode withNode g u).inputs m)[i]? =
      ((g.inputs m)[i]?).map fun d => if d = oldNode ∧ ⟨m, i⟩ = u then withNode else d := by
  obtain ⟨user, slot⟩ := u
  unfold rewireUse
  split
  · rename_i hCond
    rw [setInput_inputs _ _ _ hOk]
    by_cases hm : m = user
    · subst hm
      rw [if_pos rfl, getElem?_set]
      by_cases hi : slot = i
      · subst hi
        have hRead : (g.inputs m)[slot]? = some oldNode := by
          have hRange := hOk.inRange m
          have hSlot : slot < (g.node m).numInputs := hCond.2.1
          have hIn : (g.node m).edgeOffset + slot < g.edgePool.length := by omega
          rw [getElem?_inputs, if_pos hCond.2.1, getElem?_eq_getElem hIn, ← hCond.2.2,
            getD_eq_getElem?_getD, getElem?_eq_getElem hIn]
          rfl
        have hLen : slot < (g.inputs m).length := by
          rw [length_inputs hOk]
          exact hCond.2.1
        rw [if_pos rfl, if_pos hLen, hRead]
        simp
      · rw [if_neg hi]
        have hNe : ¬ (⟨m, i⟩ : Use) = ⟨m, slot⟩ := by
          intro hBad
          injection hBad with _ hBad
          exact hi hBad.symm
        simp [hNe]
    · rw [if_neg hm]
      have hNe : ¬ (⟨m, i⟩ : Use) = ⟨user, slot⟩ := by
        intro hBad
        injection hBad with hBad
        exact hm hBad
      simp [hNe]
  · rename_i hCond
    -- the edge does not lead to the old node
    rcases hRead : (g.inputs m)[i]? with _ | d
    · rfl
    have hKeep : ¬ (d = oldNode ∧ (⟨m, i⟩ : Use) = ⟨user, slot⟩) := by
      rintro ⟨rfl, hUse⟩
      injection hUse with hUser hSlot
      subst hUser hSlot
      rw [getElem?_inputs] at hRead
      split at hRead
      · rename_i hi
        refine hCond ⟨?_, hi, ?_⟩
        · by_contra hOut
          rw [node_of_le (Nat.le_of_not_lt hOut)] at hi
          exact Nat.not_lt_zero _ hi
        · rw [getD_eq_getElem?_getD, hRead]
          rfl
      · cases hRead
    rw [map_some, if_neg hKeep]

theorem Ok.rewireUse (hOk : Ok g) (oldNode withNode : NodeId) (u : Use) :
    Ok (Store.rewireUse oldNode withNode g u) := by
  rcases rewireUse_eq_or oldNode withNode g u with hEq | hEq
  · rw [hEq]
    exact hOk
  · rw [hEq]
    exact hOk.setInput _ _ _

/-- The loop moves the edges its snapshot names. -/
theorem foldl_rewireUse_inputs (hOk : Ok g) {oldNode withNode : NodeId}
    (hNe : oldNode ≠ withNode) (us : List Use) (m : NodeId) (i : Nat) :
    ((us.foldl (rewireUse oldNode withNode) g).inputs m)[i]? =
      ((g.inputs m)[i]?).map fun d => if d = oldNode ∧ ⟨m, i⟩ ∈ us then withNode else d := by
  induction us generalizing g with
  | nil => simp
  | cons u us ih =>
    rw [foldl_cons, ih (hOk.rewireUse oldNode withNode u), rewireUse_inputs hOk, Option.map_map]
    congr 1
    funext d
    by_cases hOld : d = oldNode
    · by_cases hUse : (⟨m, i⟩ : Use) = u
      · simp [hOld, hUse, hNe.symm]
      · simp [hOld, hUse]
    · simp [hOld]

/-- The node that stands for `n` once `oldNode` is replaced. -/
def redirect (oldNode withNode n : NodeId) : NodeId := if n = oldNode then withNode else n

/-- What a replacement that is not refused does: every edge to the old node moves, the old
node becomes a tombstone, and the log grows by one entry. -/
structure Replaced (g g' : Store) (oldNode withNode : NodeId) : Prop where
  old : oldNode < g.nodes.length
  withLive : withNode < g.nodes.length ∧ (g.node withNode).isDead = false
  distinct : oldNode ≠ withNode
  length : g'.nodes.length = g.nodes.length
  dead : (g'.node oldNode).isDead = true
  kinds : ∀ n, (g'.node n).kind = (g.node n).kind
  tags : ∀ n, n ≠ oldNode → (g'.node n).tags = (g.node n).tags
  inputs : ∀ n, g'.inputs n = (g.inputs n).map (redirect oldNode withNode)
  log : ∃ e, g'.replacements = g.replacements ++ [⟨oldNode, withNode, e⟩]

theorem foldl_rewireUse_replacements (oldNode withNode : NodeId) :
    ((g.usesOf oldNode).foldl (rewireUse oldNode withNode) g).replacements = g.replacements := by
  apply foldl_rewireUse (P := fun h => h.replacements = g.replacements) oldNode withNode
  · intro h n slot hEq
    rw [setInput_log, hEq]
  · rfl

theorem replaceNode_node {oldNode withNode : NodeId} (hOld : oldNode < g.nodes.length)
    (hWith : withNode < g.nodes.length) (hLive : (g.node withNode).isDead = false)
    (hNe : oldNode ≠ withNode) (m : NodeId) :
    (g.replaceNode oldNode withNode).1.node m =
      if m = oldNode then
        { g.node oldNode with
          flags := ((g.node oldNode).flags.set .replaced).set .dead, epoch := g.epoch + 1 }
      else g.node m := by
  have hNodes : (g.replaceNode oldNode withNode).1.nodes = g.nodes.modify oldNode fun nd =>
      { nd with flags := (nd.flags.set .replaced).set .dead, epoch := g.epoch + 1 } := by
    rw [replaceNode, if_pos ⟨hOld, hWith, hLive, hNe⟩]
    show ((g.usesOf oldNode).foldl (rewireUse oldNode withNode) g).nodes.modify oldNode _ = _
    rw [foldl_rewireUse_nodes]
  rw [node, hNodes, getD_modify]
  by_cases hm : m = oldNode
  · rw [if_pos ⟨hm, hOld⟩, if_pos hm]
    rfl
  · rw [if_neg fun h => hm h.1, if_neg hm]
    rfl

theorem replaced_replaceNode (hOk : Ok g) (hUses : UseDef g) (oldNode withNode : NodeId) :
    g.replaceNode oldNode withNode = (g, 0) ∨
      Replaced g (g.replaceNode oldNode withNode).1 oldNode withNode := by
  rcases replaceNode_cases (g := g) oldNode withNode with
    hSame | ⟨hOld, hWith, hLive, hNe, hEq⟩
  · exact .inl hSame
  · right
    have hNode := replaceNode_node hOld hWith hLive hNe
    refine ⟨hOld, ⟨hWith, hLive⟩, hNe, ?_, ?_, ?_, ?_, ?_, ?_⟩
    · rw [hEq]
      simp only [foldl_rewireUse_nodes, length_modify]
    · rw [hNode, if_pos rfl]
      exact has_set_self _ _
    · intro m
      rw [hNode]
      split
      · rename_i hm
        rw [hm]
      · rfl
    · intro m hm
      rw [hNode, if_neg hm]
    · intro m
      have hSame : SameEdges (g.replaceNode oldNode withNode).1
          ((g.usesOf oldNode).foldl (rewireUse oldNode withNode) g) := by
        rw [hEq]
        exact SameEdges.modify rfl rfl rfl (fun _ => rfl) (fun _ => rfl)
      rw [hSame.inputs]
      apply ext_getElem?
      intro i
      rw [foldl_rewireUse_inputs hOk hNe, getElem?_map]
      rcases hRead : (g.inputs m)[i]? with _ | d
      · rfl
      rw [map_some, map_some, redirect]
      by_cases hd : d = oldNode
      · -- the use list names every edge to the old node
        have hCount := hUses.counts d m i
        rw [if_pos hRead] at hCount
        have hMem : (⟨m, i⟩ : Use) ∈ g.usesOf oldNode := by
          rw [← hd]
          exact count_pos_iff.mp (by rw [hCount]; exact Nat.one_pos)
        rw [if_pos ⟨hd, hMem⟩, if_pos hd]
      · rw [if_neg fun h => hd h.1, if_neg hd]
    · refine ⟨g.epoch + 1, ?_⟩
      rw [hEq]
      simp only [foldl_rewireUse_replacements]

theorem replaced_of_guard (hOk : Ok g) (hUses : UseDef g) {oldNode withNode : NodeId}
    (hGuard : oldNode < g.nodes.length ∧ withNode < g.nodes.length ∧
      (g.node withNode).isDead = false ∧ oldNode ≠ withNode) :
    Replaced g (g.replaceNode oldNode withNode).1 oldNode withNode := by
  rcases replaced_replaceNode hOk hUses oldNode withNode with hSame | hReplaced
  · have hEpoch := congrArg (fun s : Store × BitVec 32 => s.1.epoch) hSame
    simp only [replaceNode, if_pos hGuard] at hEpoch
    bv_omega
  · exact hReplaced

section Rewrites

variable {edge : NodeId → Nat → NodeId → Prop} {W : Valuation}

theorem Replaced.rewrite {g' : Store} {oldNode withNode : NodeId}
    (hRep : Replaced g g' oldNode withNode) (hOld : g.Live oldNode)
    (hStart : producesControl (g.node Graph.startNode).kind = true)
    (hStand : StandsFor edge W g oldNode withNode) :
    g.Rewrite edge W g' (redirect oldNode withNode) := by
  have hNotStart : oldNode ≠ Graph.startNode := by
    rintro rfl
    rw [hStand.noControl] at hStart
    cases hStart
  have hMoved : ∀ n, redirect oldNode withNode n ≠ n → n = oldNode := by
    intro n hn
    by_contra hne
    exact hn (if_neg hne)
  have hSelf : ∀ n, redirect oldNode withNode n = n → n ≠ oldNode := by
    rintro n hn rfl
    rw [redirect, if_pos rfl] at hn
    exact hRep.distinct hn.symm
  constructor
  · exact hRep.length
  · exact hRep.kinds
  · intro n hLive hn
    refine ⟨?_, hRep.tags n (hSelf n hn), .inl (hRep.inputs n)⟩
    rcases hLive with hLive | ⟨hLt, hDead⟩
    · exact .inl hLive
    · refine .inr ⟨by rw [hRep.length]; exact hLt, ?_⟩
      rw [isDead_of_tags (hRep.tags n (hSelf n hn))]
      exact hDead
  · intro n _ hn
    have hEq := hMoved n hn
    subst hEq
    rw [redirect, if_pos rfl]
    exact hStand
  · intro n _
    unfold redirect
    split_ifs with h₁ h₂
    · rfl
    · rfl
    · rfl
  · intro n hLive
    have hne : n ≠ oldNode := by
      rintro rfl
      rcases hLive with hLive | ⟨-, hDead⟩
      · exact hNotStart hLive
      · rw [hRep.dead] at hDead
        cases hDead
    refine ⟨?_, if_neg hne⟩
    rcases hLive with hLive | ⟨hLt, hDead⟩
    · exact .inl hLive
    · refine .inr ⟨by rw [← hRep.length]; exact hLt, ?_⟩
      rw [← isDead_of_tags (hRep.tags n hne)]
      exact hDead

end Rewrites

end Store

end B2Compiler.Ir
