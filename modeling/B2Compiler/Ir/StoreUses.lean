import B2Compiler.Ir.StoreSlices

/-!
# The def-use invariant

`UseDef` relates the use lists to the slices: an entry stands in the list of a node
once for every slot that reads the node.  Every call whose ids name nodes and that does
not wrap an input count keeps it.
-/

namespace B2Compiler.Ir

open List Nat

namespace Store

variable {g : Store}

/-- An entry stands in the list of a node once for every slot that reads the node, and
every input names a node. -/
structure UseDef (g : Store) : Prop where
  counts : ∀ (d u : NodeId) (i : Nat),
    (g.usesOf d).count ⟨u, i⟩ = if (g.inputs u)[i]? = some d then 1 else 0
  closed : ∀ (u : NodeId) (i : Nat) (d : NodeId), (g.inputs u)[i]? = some d → d < g.nodes.length

theorem UseDef.setInput (hOk : Ok g) (hUses : UseDef g) (n : NodeId) (slot : Nat)
    (v : NodeId) (hv : v < g.nodes.length) : UseDef (g.setInput n slot v) := by
  rcases hOld : (g.inputs n)[slot]? with _ | old
  · -- no such slot
    have hNot : ¬ (n < g.nodes.length ∧ slot < (g.node n).numInputs) := by
      rintro ⟨-, hSlot⟩
      have hLen := length_inputs hOk n
      rw [getElem?_eq_none_iff, hLen] at hOld
      exact absurd hSlot (Nat.not_lt.mpr hOld)
    rw [setInput_of_not n slot v hNot]
    exact hUses
  · obtain ⟨hSlot, hRead⟩ := (inputs_eq_some_iff hOk n slot old).mp hOld
    have hn : n < g.nodes.length := by
      by_contra hn
      rw [numInputs, node_of_le (Nat.le_of_not_lt hn)] at hSlot
      exact Nat.not_lt_zero _ hSlot
    by_cases hNe : old = v
    · have hSame : g.setInput n slot v = g := by
        have hSlot' : slot < (g.node n).numInputs := hSlot
        have hGet : g.edgePool.getD ((g.node n).edgeOffset + slot) 0 = v := by
          simpa [input, hSlot', hNe] using hRead
        simp only [Store.setInput, hn, hSlot', hGet, if_true]
      rw [hSame]
      exact hUses
    · have hOldLt := hUses.closed n slot old hOld
      have hSlotLt : slot < (g.inputs n).length := by
        rw [length_inputs hOk]
        exact hSlot
      -- what each slot reads after the move
      have hInputs : ∀ u i, ((g.setInput n slot v).inputs u)[i]? =
          if u = n ∧ i = slot then some v else (g.inputs u)[i]? := by
        intro u i
        rw [setInput_inputs n slot v hOk]
        by_cases hu : u = n
        · subst hu
          rw [if_pos rfl, getElem?_set]
          by_cases hi : slot = i
          · subst hi
            simp [hSlotLt]
          · simp [hi, Ne.symm hi]
        · simp [hu]
      constructor
      · intro d u i
        rw [setInput_usesOf n slot v hOk hn hOld hNe hv hOldLt, hInputs]
        have hCount := hUses.counts d u i
        by_cases hEdge : u = n ∧ i = slot
        · obtain ⟨rfl, rfl⟩ := hEdge
          rw [hOld] at hCount
          by_cases hdv : d = v
          · subst hdv
            simp [count_append, hCount, hNe]
          · by_cases hdo : d = old
            · subst hdo
              simp [count_erase_self, hCount, hdv, Ne.symm hdv]
            · simp [hdv, hdo, hCount, Ne.symm hdv, Ne.symm hdo]
        · have hUse : (⟨u, i⟩ : Use) ≠ ⟨n, slot⟩ := by
            intro hBad
            injection hBad with hU hI
            exact hEdge ⟨hU, hI⟩
          simp only [hEdge, if_false, ← hCount]
          by_cases hdv : d = v
          · subst hdv
            simp [count_append, hUse.symm]
          · by_cases hdo : d = old
            · subst hdo
              rw [if_neg hdv, if_pos rfl, count_erase_of_ne hUse]
            · simp [hdv, hdo]
      · intro u i d hRead'
        rw [setInput_nodes]
        rw [hInputs] at hRead'
        by_cases hEdge : u = n ∧ i = slot
        · rw [if_pos hEdge] at hRead'
          injection hRead' with hEq
          exact hEq ▸ hv
        · rw [if_neg hEdge] at hRead'
          exact hUses.closed u i d hRead'

theorem SameEdges.useDef {h : Store} (hSame : SameEdges h g) (hUses : UseDef g) : UseDef h := by
  constructor
  · intro d u i
    rw [hSame.usesOf, hSame.inputs]
    exact hUses.counts d u i
  · intro u i d hRead
    rw [hSame.inputs] at hRead
    rw [hSame.length]
    exact hUses.closed u i d hRead

theorem UseDef.makeRaw (hOk : Ok g) (hUses : UseDef g) (kind : NodeKind) (ins : List NodeId)
    (p p2 : BitVec 32) (c : BitVec 64) (hIns : ∀ v ∈ ins, v < g.nodes.length) :
    UseDef (g.makeRaw kind ins p p2 c).1 := by
  have hMem : ∀ (i : Nat) (d : NodeId),
      (ins.take (ins.length % 65536))[i]? = some d → d < g.nodes.length := by
    intro i d hRead
    exact hIns d (mem_of_mem_take (mem_of_getElem? hRead))
  constructor
  · intro d u i
    rw [makeRaw_uses _ _ _ _ _ hOk, makeRaw_inputs _ _ _ _ _ hOk, hUses.counts]
    by_cases hu : u = g.nodes.length
    · -- the new node read nothing before
      subst hu
      have hNone : (g.inputs g.nodes.length)[i]? = none := by
        rw [getElem?_inputs, node_of_le (Nat.le_refl _)]
        rfl
      by_cases hRead : (ins.take (ins.length % 65536))[i]? = some d
      · have hd := hMem i d hRead
        simp [hNone, hRead, lt_succ_of_lt hd]
      · simp [hNone, hRead]
    · simp [hu]
  · intro u i d hRead
    rw [makeRaw_length]
    rw [makeRaw_inputs _ _ _ _ _ hOk] at hRead
    by_cases hu : u = g.nodes.length
    · rw [if_pos hu] at hRead
      exact lt_succ_of_lt (hMem i d hRead)
    · rw [if_neg hu] at hRead
      exact lt_succ_of_lt (hUses.closed u i d hRead)

theorem UseDef.appendInput (hOk : Ok g) (hUses : UseDef g) {n v : NodeId}
    (hn : n < g.nodes.length) (hv : v < g.nodes.length)
    (hNum : (g.node n).numInputs + 1 < 65536) : UseDef (g.appendInput n v) := by
  have hLen : (g.inputs n).length = (g.node n).numInputs := length_inputs hOk n
  have hInputs : ∀ u, (g.appendInput n v).inputs u =
      if u = n then g.inputs n ++ [v] else g.inputs u := by
    intro u
    rw [appendInput_inputs n v hOk hn, Nat.mod_eq_of_lt hNum, take_of_length_le]
    exact Nat.le_of_eq (by rw [length_append, hLen, length_singleton])
  constructor
  · intro d u i
    rw [appendInput_usesOf n v hOk hn hv hNum, hInputs]
    have hCount := hUses.counts d u i
    by_cases hu : u = n
    · subst hu
      rw [if_pos rfl, getElem?_append, hLen]
      by_cases hi : i < (g.node u).numInputs
      · have hUse : (⟨u, i⟩ : Use) ≠ ⟨u, (g.node u).numInputs⟩ := by
          intro hBad
          injection hBad with _ hI
          omega
        rw [if_pos hi, ← hCount]
        by_cases hd : d = v
        · subst hd
          simp [count_append, hUse.symm]
        · simp [hd]
      · have hNone : (g.inputs u)[i]? = none := by
          rw [getElem?_eq_none_iff, hLen]
          omega
        rw [hNone] at hCount
        rw [if_neg hi]
        by_cases hd : d = v
        · subst hd
          by_cases hEq : i = (g.node u).numInputs
          · subst hEq
            simp [count_append, hCount]
          have hUse : (⟨u, i⟩ : Use) ≠ ⟨u, (g.node u).numInputs⟩ := by
            intro hBad
            injection hBad with _ hI
            exact hEq hI
          have hSub : i - (g.node u).numInputs ≠ 0 := by omega
          simp [count_append, hUse.symm, hCount, hSub]
        · have hSub : ¬ ([v] : List NodeId)[i - (g.node u).numInputs]? = some d := by
            rw [getElem?_singleton]
            split
            · simp [Ne.symm hd]
            · simp
          simp only [hd, hSub, if_false, hCount]
          simp
    · have hUse : (⟨u, i⟩ : Use) ≠ ⟨n, (g.node n).numInputs⟩ := by
        intro hBad
        injection hBad with hU _
        exact hu hU
      rw [if_neg hu, ← hCount]
      by_cases hd : d = v
      · subst hd
        simp [count_append, hUse.symm]
      · simp [hd]
  · intro u i d hRead
    rw [appendInput_length]
    rw [hInputs] at hRead
    by_cases hu : u = n
    · rw [if_pos hu] at hRead
      rcases mem_append.mp (mem_of_getElem? hRead) with hOld | hNew
      · obtain ⟨k, hk⟩ := getElem?_of_mem hOld
        exact hUses.closed n k d hk
      · rw [mem_singleton.mp hNew]
        exact hv
    · rw [if_neg hu] at hRead
      exact hUses.closed u i d hRead

theorem UseDef.replaceNode (hOk : Ok g) (hUses : UseDef g) (oldNode withNode : NodeId) :
    UseDef (g.replaceNode oldNode withNode).1 := by
  rcases replaceNode_cases (g := g) oldNode withNode with hSame | ⟨-, hWith, -, -, hEq⟩
  · rw [hSame]
    exact hUses
  -- the loop moves edges of one graph, so the node count is part of what it keeps
  have hRewired := foldl_rewireUse
    (P := fun h => h.nodes = g.nodes ∧ Ok h ∧ UseDef h) oldNode withNode
    (fun h n slot hh => ⟨by rw [setInput_nodes, hh.1], hh.2.1.setInput n slot withNode,
      hh.2.2.setInput hh.2.1 n slot withNode (by rw [hh.1]; exact hWith)⟩)
    (g.usesOf oldNode) g ⟨rfl, hOk, hUses⟩
  rw [hEq]
  refine SameEdges.useDef ?_ hRewired.2.2
  exact SameEdges.modify rfl rfl rfl (fun _ => rfl) (fun _ => rfl)

theorem useDef_fresh : UseDef fresh := by
  apply UseDef.makeRaw
  · constructor
    · rfl
    · intro n
      exact Nat.le_refl 0
    · intro n m _
      exact Or.inl (Nat.le_refl 0)
  · constructor
    · intro d u i
      rfl
    · intro u i d hRead
      cases hRead
  · intro v hv
    cases hv

end Store

/-! ## Well-formed sequences of calls -/

/-- Every edge the call names runs between existing nodes. -/
def Call.NamesNodes (g : Store) : Call → Prop
  | .make _ inputs _ _ => ∀ v ∈ inputs, v < g.nodeCount
  | .makeFrameState _ _ locals _ _ => ∀ v ∈ locals, v < g.nodeCount
  | .makeVirtualObject _ fieldValues => ∀ v ∈ fieldValues, v < g.nodeCount
  | .makeArrayVirtualObject _ length elements => ∀ v ∈ length :: elements, v < g.nodeCount
  | .setInput n _ v => n < g.nodeCount ∧ v < g.nodeCount
  | .appendInput n v => n < g.nodeCount ∧ v < g.nodeCount
  | .replaceNode oldNode withNode => oldNode < g.nodeCount ∧ withNode < g.nodeCount
  | .killNode n => n < g.nodeCount
  | _ => True

/-- The call leaves no node with more than 65535 inputs. -/
def Call.WithinArity (g : Store) : Call → Prop
  | .make _ inputs _ _ => inputs.length ≤ 65535
  | .makeFrameState _ _ locals _ _ => locals.length ≤ 65535
  | .makeVirtualObject _ fieldValues => fieldValues.length ≤ 65535
  | .makeArrayVirtualObject _ _ elements => elements.length + 1 ≤ 65535
  | .appendInput n _ => g.numInputs n + 1 ≤ 65535
  | _ => True

instance (g : Store) (c : Call) : Decidable (c.NamesNodes g) := by
  cases c <;> unfold Call.NamesNodes <;> infer_instance

instance (g : Store) (c : Call) : Decidable (c.WithinArity g) := by
  cases c <;> unfold Call.WithinArity <;> infer_instance

/-- Both hold at every call of a sequence. -/
def Respects (g : Store) : List Call → Prop
  | [] => True
  | c :: calls => (c.NamesNodes g ∧ c.WithinArity g) ∧ Respects (g.step c) calls

instance decidableRespects (g : Store) : (calls : List Call) → Decidable (Respects g calls)
  | [] => inferInstanceAs (Decidable True)
  | c :: calls =>
    haveI := decidableRespects (g.step c) calls
    inferInstanceAs (Decidable ((c.NamesNodes g ∧ c.WithinArity g) ∧ Respects (g.step c) calls))

namespace Store

variable {g : Store}

/-- One well-formed call keeps the def-use invariant. -/
theorem UseDef.step (hOk : Ok g) (hUses : UseDef g) {c : Call} (hNames : c.NamesNodes g)
    (hArity : c.WithinArity g) : UseDef (g.step c) := by
  cases c with
  | make kind inputs payload payload2 => exact hUses.makeRaw hOk _ _ _ _ _ hNames
  | makeFrameState method pc locals caller vobjs =>
    have hSame := sameEdges_addFrameStateDesc (g := g) method pc caller vobjs
    exact (hSame.useDef hUses).makeRaw (hSame.ok hOk) _ _ _ _ _ hNames
  | makeVirtualObject classId fieldValues | makeArrayVirtualObject elemType length elements =>
    exact hUses.makeRaw hOk _ _ _ _ _ hNames
  | appendFrameStateVobj fs vobj => exact (sameEdges_appendFrameStateVobj fs vobj).useDef hUses
  | addSpecMeta sm => exact (sameEdges_addSpecMeta sm).useDef hUses
  | addDependency dep => exact (sameEdges_addDependency dep).useDef hUses
  | attachSpecMeta n id => exact (sameEdges_attachSpecMeta n id).useDef hUses
  | setInput n slot v => exact hUses.setInput hOk n slot v hNames.2
  | appendInput n v => exact hUses.appendInput hOk hNames.1 hNames.2 (lt_succ_of_le hArity)
  | replaceNode oldNode withNode => exact hUses.replaceNode hOk oldNode withNode
  | killNode n => exact (sameEdges_killNode n).useDef hUses
  | nextEpoch => exact sameEdges_nextEpoch.useDef hUses
  | _ => exact hUses.makeRaw hOk _ _ _ _ _ (by simp)

theorem UseDef.run (hOk : Ok g) (hUses : UseDef g) (calls : List Call)
    (hCalls : Respects g calls) : UseDef (g.run calls) := by
  induction calls generalizing g with
  | nil => exact hUses
  | cons c calls ih => exact ih (hOk.step c) (hUses.step hOk hCalls.1.1 hCalls.1.2) hCalls.2

/-- After any sequence of calls whose ids name existing nodes and in which no node
exceeds 65535 inputs, `(u, i)` occurs in `usesOf d` once if `input u i` is `d`, and
otherwise not at all. -/
theorem usesOf_count_run (calls : List Call) (hCalls : Respects fresh calls)
    (d u : NodeId) (i : Nat) :
    ((fresh.run calls).usesOf d).count ⟨u, i⟩ =
      if i < (fresh.run calls).numInputs u ∧ (fresh.run calls).input u i = d then 1 else 0 := by
  have hOk := ok_fresh.run calls
  have hUses := useDef_fresh.run ok_fresh calls hCalls
  rw [hUses.counts d u i]
  by_cases hRead : ((fresh.run calls).inputs u)[i]? = some d
  · rw [if_pos hRead, if_pos ((inputs_eq_some_iff hOk u i d).mp hRead)]
  · rw [if_neg hRead, if_neg fun h => hRead ((inputs_eq_some_iff hOk u i d).mpr h)]

/-- A sum, a phi that holds it twice and a replacement of the sum's operand by the sum
itself: every kind of edge edit, the sum ending up as its own input. -/
def selfReplacing : List Call :=
  [.constantI 1, .constantI 2, .make .addI [1, 2] 0 0, .make .phi [0, 3] 0 0,
    .appendInput 4 3, .setInput 4 1 2, .replaceNode 1 3, .setInput 3 0 2, .killNode 1]

theorem usesOf_count_selfReplacing : Respects fresh selfReplacing ∧
      ((fresh.run selfReplacing).usesOf 2).count ⟨4, 1⟩ = 1 ∧
      ((fresh.run selfReplacing).usesOf 3).count ⟨3, 0⟩ = 0 := by
  have hCalls : Respects fresh selfReplacing := by decide
  refine ⟨hCalls, ?_, ?_⟩
  · rw [usesOf_count_run selfReplacing hCalls 2 4 1]
    decide
  · rw [usesOf_count_run selfReplacing hCalls 3 3 0]
    decide

end Store

end B2Compiler.Ir
