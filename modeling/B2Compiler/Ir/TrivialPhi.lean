import B2Compiler.Ir.Rewriting

/-!
# Trivial phis

A phi is trivial when all its operands but itself are one node.  In a graph in single
assignment form such a phi has the value of that node wherever it has one: every entry
of its merge brings the node along or comes from inside, and once the merge has been
passed nothing the node was settled at is passed again.
-/

namespace B2Compiler.Ir

open Lib List

namespace Store

/-- Every phi has one operand for each predecessor of its merge. -/
def PhiArity (g : Store) : Prop :=
  ∀ p r, g.Live p → (g.node p).kind = .phi → (g.inputs p)[0]? = some r →
    (g.inputs p).length = (g.inputs r).length + 1

/-- Apart from itself, the phi `p` has the operand `x` only. -/
structure TrivialPhi (g : Store) (p x : NodeId) : Prop where
  live : g.Live p
  kind : (g.node p).kind = .phi
  other : x ≠ p
  mem : x ∈ (g.inputs p).drop 1
  only : ∀ y ∈ (g.inputs p).drop 1, y = p ∨ y = x

variable {g : Store} {edge : NodeId → Nat → NodeId → Prop} {W : Valuation} {p x : NodeId}

variable (hTriv : g.TrivialPhi p x)
include hTriv

theorem TrivialPhi.operand_live (hW : g.Wired edge) : g.Live x :=
  hW.closed p x hTriv.live (mem_of_mem_drop hTriv.mem)

theorem TrivialPhi.exists_merge : ∃ r, (g.inputs p)[0]? = some r := by
  have hPos : 0 < (g.inputs p).length := by
    have hMem := length_pos_of_mem hTriv.mem
    rw [length_drop] at hMem
    omega
  exact ⟨_, getElem?_eq_getElem hPos⟩

/-- An entry of the merge brings the phi itself or its other operand. -/
theorem TrivialPhi.entry (hW : g.Wired edge) (hArity : g.PhiArity)
    {r a : NodeId} {slot : Nat} (hMerge : (g.inputs p)[0]? = some r) (hEdge : edge a slot r) :
    ∃ y, (g.inputs p)[slot + 1]? = some y ∧ (y = p ∨ y = x) ∧ g.AvailableAlong edge y a := by
  have hSlot : slot < (g.inputs r).length := by
    obtain ⟨-, -, hInput, -⟩ := hW.edges a slot r hEdge
    exact (List.getElem?_eq_some_iff.mp hInput).1
  have hLen := hArity p r hTriv.live hTriv.kind hMerge
  have hRange : slot + 1 < (g.inputs p).length := by
    omega
  have hInput := getElem?_eq_getElem hRange
  have hMem : (g.inputs p)[slot + 1] ∈ (g.inputs p).drop 1 := by
    apply mem_of_getElem? (i := slot)
    rw [getElem?_drop, Nat.add_comm 1 slot]
    exact hInput
  exact ⟨_, hInput, hTriv.only _ hMem,
    hW.ssa p r a _ slot hTriv.live hTriv.kind hMerge hEdge hInput⟩

/-- Whatever the operand is settled at comes before every entry of the merge. -/
theorem TrivialPhi.entered (hW : g.Wired edge) (hArity : g.PhiArity)
    {r c : NodeId} (hMerge : (g.inputs p)[0]? = some r) (hPlace : g.Place x c) :
    Entered edge entryVisit r c := by
  intro a slot hEdge
  obtain ⟨y, -, hy, hAvail⟩ := hTriv.entry hW hArity hMerge hEdge
  rcases hy with rfl | rfl
  · refine Or.inl (hAvail r (.own ?_ hMerge))
    rw [hTriv.kind]
    nofun
  · exact Or.inr (hAvail c hPlace)

theorem TrivialPhi.merge_ne_entry (hW : g.Wired edge) {r : NodeId}
    (hMerge : (g.inputs p)[0]? = some r) : r ≠ (entryVisit : NodeId × Nat).1 := by
  rintro rfl
  exact hW.merges p _ hTriv.live hTriv.kind hMerge hW.start.2

theorem TrivialPhi.available (hW : g.Wired edge) (hArity : g.PhiArity)
    {b : NodeId} (h : g.AvailableAlong edge p b) : g.AvailableAlong edge x b := by
  intro c hPlace
  obtain ⟨r, hMerge⟩ := hTriv.exists_merge
  have hDom : Dominates edge entryVisit r b := h r (.own (by rw [hTriv.kind]; nofun) hMerge)
  exact (hTriv.entered hW hArity hMerge hPlace).dominates (hTriv.merge_ne_entry hW hMerge) hDom

/-- The value of the operand at the last entry of the merge is its value at the end. -/
theorem TrivialPhi.eval_since (hW : g.Wired edge)
    (hArity : g.PhiArity) {fuel : Nat} {r : NodeId} {path before : CtrlPath} {slot : Nat}
    (hMerge : (g.inputs p)[0]? = some r) (hKnown : g.KnownAt edge path p)
    (hLast : lastVisit r path = some (slot, before)) :
    g.eval W fuel path x = g.eval W fuel before x := by
  obtain ⟨-, hPath, b, i, rest, hEq, hAvail⟩ := hKnown
  obtain ⟨since, hSplit, hSince⟩ := lastVisit_eq_some hLast
  have hDom : Dominates edge entryVisit r b :=
    hAvail r (.own (by rw [hTriv.kind]; nofun) hMerge)
  have hWhole : path = (since ++ [(r, slot)]) ++ before := by
    rw [hSplit, append_assoc]
    rfl
  rw [hWhole]
  apply eval_append
  intro c hPlace j
  rw [hEq] at hPath hSplit
  exact (hTriv.entered hW hArity hMerge hPlace).not_mem_since (hTriv.merge_ne_entry hW hMerge)
    hDom hPath hSplit hSince j

theorem TrivialPhi.eval (hW : g.Wired edge) (hArity : g.PhiArity)
    {fuel : Nat} {path : CtrlPath} {v : Val} (hKnown : g.KnownAt edge path p)
    (hEval : g.eval W fuel path p = some (.val v)) : g.eval W fuel path x = some (.val v) := by
  induction fuel generalizing path with
  | zero => cases hEval
  | succ fuel ih =>
    have hKind : (g.node p).kind.placement = .merge := by
      rw [hTriv.kind]
      rfl
    obtain ⟨r, slot, before, y, hMerge, hLast, hInput, hVal, -⟩ :=
      (eval_merge_iff hKind).mp hEval
    have hMem : y ∈ (g.inputs p).drop 1 := by
      apply mem_of_getElem? (i := slot)
      rw [getElem?_drop, Nat.add_comm 1 slot]
      exact hInput
    rw [hTriv.eval_since hW hArity hMerge hKnown hLast]
    rcases hTriv.only y hMem with rfl | rfl
    · -- the entry brought the phi itself: an earlier entry brought the operand
      exact eval_succ (ih (hKnown.entry hW hTriv.kind hMerge hLast hInput) hVal)
    · exact eval_succ hVal

theorem TrivialPhi.standsFor (hW : g.Wired edge)
    (hArity : g.PhiArity) : StandsFor edge W g p x where
  live := hTriv.operand_live hW
  noControl := by
    rw [hTriv.kind]
    rfl
  noEdges := .inl hTriv.kind
  available b h := hTriv.available hW hArity h
  value fuel path v hKnown hEval := hTriv.eval hW hArity hKnown hEval
  quiet path _ hThrows := by
    have hKind := hThrows.1
    rw [hTriv.kind] at hKind
    cases hKind

end Store

end B2Compiler.Ir
