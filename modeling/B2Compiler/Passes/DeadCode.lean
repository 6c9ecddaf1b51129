import B2Compiler.Passes.Cleanup
import B2Compiler.Passes.Sinks

/-!
# Dead code elimination

A removed node had no referencer at all, so everything that stays is a part of its own: it
keeps its record, its operands and its values.  The edges of a removed node go to sinks,
but a tagged value or a vector has none, and such an operand is held by the tombstone.

The run has converged when one more sweep finds nothing to remove.  What it leaves behind
is then referred to; dead chains are gone, dead cycles hold themselves.
-/

namespace B2Compiler.Passes

open Ir List

/-- A removable node takes data; a phi takes its merge first. -/
theorem roles_of_isDceSafe {k : NodeKind} (h : isDceSafe k = true) :
    (info k).hasFrameState = false ∧
      (k = .phi ∧ (info k).roles = [.ctrl] ∨ ∀ r ∈ (info k).roles, r = .data) ∧
      ((info k).variadicRole = none ∨ (info k).variadicRole = some .data) := by
  cases k <;> first | (cases h; done) | exact ⟨rfl, by decide, by decide⟩

theorem ctrlSlot_of_isDceSafe {k : NodeKind} (h : isDceSafe k = true) (hPhi : k ≠ .phi)
    (slot : Nat) : k.ctrlSlot slot = false := by
  obtain ⟨-, hRoles, hVariadic⟩ := roles_of_isDceSafe h
  unfold NodeKind.ctrlSlot
  rcases hRoles with ⟨hBad, -⟩ | hData
  · exact absurd hBad hPhi
  split
  · rename_i role hRole
    rw [hData role (mem_of_getElem? hRole)]
    rfl
  · rcases hVariadic with hNone | hSome
    · rw [hNone]
      rfl
    · rw [hSome]
      rfl

theorem roleOfSlot_of_isDceSafe {g : Store} {n : NodeId} {slot : Nat}
    (h : isDceSafe (g.node n).kind = true) (hMerge : ¬((g.node n).kind = .phi ∧ slot = 0)) :
    roleOfSlot g n slot = .data ∨ roleOfSlot g n slot = .none := by
  obtain ⟨hFrame, hRoles, hVariadic⟩ := roles_of_isDceSafe h
  unfold roleOfSlot
  dsimp only
  split
  · exact .inr rfl
  split
  · rename_i hLast
    rw [hFrame] at hLast
    cases hLast.1
  split
  · rename_i role hRole
    left
    rcases hRoles with ⟨hPhi, hCtrl⟩ | hData
    · -- the only fixed slot of a phi is its merge
      rw [hCtrl] at hRole
      rcases slot with _ | slot
      · exact absurd ⟨hPhi, rfl⟩ hMerge
      · cases hRole
    · exact hData role (mem_of_getElem? hRole)
  · rcases hVariadic with hNone | hSome
    · rw [hNone]
      exact .inr rfl
    · rw [hSome]
      exact .inl rfl

/-! ## The edges of a removed node -/

section Edges

variable {n : NodeId} {s s' : PassRun}

theorem junkForSlot_spec (hTidy : Tidy s) (hKind : isDceSafe (s.g.node n).kind = true)
    {slot : Nat} (hSlot : slot < (s.g.node n).numInputs) {v : NodeId}
    (h : (junkForSlot n slot).run s = some (v, s')) :
    Makes s s' ∧ (v ≠ kInvalidNodeId → IsSink s' v) ∧
      (v = kInvalidNodeId → s'.g.nodes.length ≤ kInvalidNodeId →
        ∃ t, s.g.image.typeOf (s.g.input n slot) = some t ∧ hasSink t = false) := by
  unfold junkForSlot at h
  rw [run_bind_graph] at h
  rw [if_neg (Nat.not_le.mpr hSlot)] at h
  split at h
  · obtain ⟨hMakes, hSink⟩ := regionSink_spec hTidy h
    refine ⟨hMakes, fun _ => hSink, fun hEq hIds => ?_⟩
    have hLt := hSink.lt hMakes.tidy
    rw [hEq] at hLt
    exact absurd hIds (Nat.not_le.mpr hLt)
  · rename_i hMerge
    have hData : (do dataSink (← typeOf (s.g.input n slot)) : PassM NodeId).run s = some (v, s') := by
      rcases roleOfSlot_of_isDceSafe hKind hMerge with hRole | hRole
      all_goals
        rw [hRole] at h
        exact h
    rw [run_bind_eq_some] at hData
    obtain ⟨t, s₁, hType, hSink⟩ := hData
    rw [run_typeOf] at hType
    obtain ⟨rfl, hType⟩ := hType
    obtain ⟨hMakes, hIs, hNone⟩ := dataSink_spec hTidy hSink
    refine ⟨hMakes, hIs, fun hEq hIds => ⟨t, hType, ?_⟩⟩
    rcases hNone hEq with hNo | hOver
    · exact hNo
    · exact absurd hIds (Nat.not_le.mpr hOver)

/-- The edges of `n` at the other slots are where they were. -/
structure SlotDone (n : NodeId) (slot : Nat) (s s' : PassRun) : Prop where
  moves : Moves n s s'
  length : (s'.g.inputs n).length = (s.g.inputs n).length
  others : ∀ i, i ≠ slot → (s'.g.inputs n)[i]? = (s.g.inputs n)[i]?
  settled : s'.g.nodes.length ≤ kInvalidNodeId → ∀ a, (s'.g.inputs n)[slot]? = some a →
    a = n ∨ Settled s' a

theorem slotDone_self {slot : Nat} (hTidy : Tidy s) (hn : n < s.g.nodes.length)
    (hSettled : s.g.nodes.length ≤ kInvalidNodeId → ∀ a, (s.g.inputs n)[slot]? = some a →
      a = n ∨ Settled s a) : SlotDone n slot s s :=
  ⟨moves_refl hTidy hn, rfl, fun _ _ => rfl, hSettled⟩

variable (hTidy : Tidy s) (hLoose : Loose n s) (hLive : s.g.Live n)
  (hKind : isDceSafe (s.g.node n).kind = true)
include hTidy hLoose hLive hKind

theorem junkSlots_succ {left slot : Nat} (hSlot : slot < (s.g.inputs n).length)
    (h : (junkSlots n (left + 1) slot).run s = some ((), s')) :
    ∃ s₁, SlotDone n slot s s₁ ∧ (junkSlots n left (slot + 1)).run s₁ = some ((), s') := by
  have hn := hTidy.lt hLive
  have hRead : ∀ a, (s.g.inputs n)[slot]? = some a → s.g.input n slot = a := by
    intro a ha
    exact ((Store.inputs_eq_some_iff hTidy.ok n slot a).mp ha).2
  rw [junkSlots, run_bind_graph] at h
  dsimp only at h
  split at h
  · rw [run_bind_eq_some] at h
    obtain ⟨sink, s₁, hSink, h⟩ := h
    have hNum : slot < (s.g.node n).numInputs := by
      rw [Store.length_inputs hTidy.ok] at hSlot
      exact hSlot
    obtain ⟨hMakes, hIs, hNone⟩ := junkForSlot_spec hTidy hKind hNum hSink
    have hMoves := hMakes.moves hn
    have hSame := hMakes.inputs n hn
    split at h
    · rename_i hMove
      rw [run_bind_eq_some] at h
      obtain ⟨_, s₂, hSet, h⟩ := h
      rw [run_onGraph] at hSet
      cases hSet
      have hSet := moves_setInput hMakes.tidy hMoves.ltAfter slot (hIs hMove.1)
      have hInputs : (s₁.g.setInput n slot sink).inputs n = (s.g.inputs n).set slot sink := by
        rw [Store.setInput_inputs _ _ _ hMakes.tidy.ok, if_pos rfl, hSame]
      refine ⟨_, ⟨hMoves.trans hSet, ?_, ?_, ?_⟩, h⟩
      · show ((s₁.g.setInput n slot sink).inputs n).length = _
        rw [hInputs, length_set]
      · intro i hi
        show ((s₁.g.setInput n slot sink).inputs n)[i]? = _
        rw [hInputs, getElem?_set_ne (Ne.symm hi)]
      · intro _ a ha
        have ha : ((s₁.g.setInput n slot sink).inputs n)[slot]? = some a := ha
        rw [hInputs, getElem?_set_self hSlot] at ha
        cases ha
        exact .inr (.inl (hSet.sinks sink (hIs hMove.1)))
    · rename_i hKeep
      refine ⟨s₁, ⟨hMoves, by rw [hSame], fun i _ => by rw [hSame], ?_⟩, h⟩
      intro hIds a ha
      rw [hSame] at ha
      rw [not_and_or, not_not, not_not] at hKeep
      have hEq := hRead a ha
      rcases hKeep with hInvalid | hCur
      · -- no sink for the type of the operand
        by_cases hSelf : a = n
        · exact .inl hSelf
        · obtain ⟨t, hType, hNo⟩ := hNone hInvalid hIds
          rw [hEq] at hType
          have hLiveA := hLoose.closed n a hLive (mem_of_getElem? ha)
          have hOld : Settled s a := .inr ⟨hLiveA, t, hType, hNo⟩
          exact .inr (hOld.moves hLoose hTidy hMoves hSelf)
      · by_cases hValid : sink = kInvalidNodeId
        · rw [hCur] at hValid
          have hLt := hTidy.lt (hLoose.closed n a hLive (mem_of_getElem? ha))
          rw [← hEq, hValid] at hLt
          exact absurd (Nat.lt_of_lt_of_le hLt hMoves.length) (Nat.not_lt.mpr hIds)
        · rw [← hEq, ← hCur]
          exact .inr (.inl (hIs hValid))
  · rename_i hStay
    refine ⟨s, slotDone_self hTidy hn ?_, h⟩
    intro _ a ha
    rw [hRead a ha, not_and_or, not_not, not_not] at hStay
    rcases hStay with hStart | hSelf
    · exact .inr (.inl (.inl hStart))
    · exact .inl hSelf

/-- The loop over the slots settles every edge. -/
theorem junkSlots_spec {left slot : Nat} (hLeft : slot + left ≤ (s.g.inputs n).length)
    (h : (junkSlots n left slot).run s = some ((), s')) :
    Moves n s s' ∧ (∀ i, i < slot → (s'.g.inputs n)[i]? = (s.g.inputs n)[i]?) ∧
      (s'.g.nodes.length ≤ kInvalidNodeId → ∀ i a, slot ≤ i → i < slot + left →
        (s'.g.inputs n)[i]? = some a → a = n ∨ Settled s' a) ∧
      (s'.g.inputs n).length = (s.g.inputs n).length := by
  induction left generalizing slot s with
  | zero =>
    rw [junkSlots, run_pure_eq_some] at h
    obtain ⟨-, rfl⟩ := h
    refine ⟨moves_refl hTidy (hTidy.lt hLive), fun _ _ => rfl, ?_, rfl⟩
    intro _ i a hLe hLt
    omega
  | succ left ih =>
    obtain ⟨s₁, hDone, hRest⟩ := junkSlots_succ hTidy hLoose hLive hKind (by omega) h
    have hLoose₁ := hLoose.moves hTidy hDone.moves
    have hKind₁ : isDceSafe (s₁.g.node n).kind = true := by
      rw [hDone.moves.kind]
      exact hKind
    have hLeft₁ : slot + 1 + left ≤ (s₁.g.inputs n).length := by
      rw [hDone.length]
      omega
    obtain ⟨hMoves, hBefore, hAfter, hLength⟩ := ih hDone.moves.tidy hLoose₁
      (hDone.moves.live hLive) hKind₁ hLeft₁ hRest
    refine ⟨hDone.moves.trans hMoves, ?_, ?_, hLength.trans hDone.length⟩
    · intro i hi
      rw [hBefore i (by omega), hDone.others i (by omega)]
    intro hIds i a hLe hLt ha
    by_cases hEq : i = slot
    · subst hEq
      rw [hBefore i (by omega)] at ha
      have hIds₁ := Nat.le_trans hMoves.length hIds
      rcases hDone.settled hIds₁ a ha with hSelf | hSettled
      · exact .inl hSelf
      · by_cases hSelf : a = n
        · exact .inl hSelf
        · exact .inr (hSettled.moves hLoose₁ hDone.moves.tidy hMoves hSelf)
    · exact hAfter hIds i a (by omega) (by omega) ha

theorem junkEdges_spec (h : (junkEdges n).run s = some ((), s')) :
    Moves n s s' ∧ (s'.g.nodes.length ≤ kInvalidNodeId →
      ∀ a ∈ s'.g.inputs n, a = n ∨ Settled s' a) := by
  obtain ⟨s₁, hPad, hSlots⟩ := junkEdges_pads hTidy (hTidy.lt hLive) h
  have hKind₁ : isDceSafe (s₁.g.node n).kind = true := by
    rw [hPad.kind]
    exact hKind
  have hLength : (s₁.g.inputs n).length = (s₁.g.node n).numInputs :=
    Store.length_inputs hPad.tidy.ok n
  obtain ⟨hMoves, -, hAfter, hSame⟩ := junkSlots_spec hPad.tidy (hLoose.moves hTidy hPad)
    (hPad.live hLive) hKind₁ (by omega) hSlots
  refine ⟨hPad.trans hMoves, ?_⟩
  intro hIds a ha
  obtain ⟨i, hi⟩ := List.getElem?_of_mem ha
  have hLt : i < (s'.g.inputs n).length := (List.getElem?_eq_some_iff.mp hi).1
  exact hAfter hIds i a (Nat.zero_le i) (by omega) hi

end Edges

/-- One node that nobody refers to was removed. -/
structure Removes (n : NodeId) (s s' : PassRun) : Prop where
  live : n < s.g.nodes.length ∧ (s.g.node n).isDead = false
  tidy : Tidy s'
  length : s.g.nodes.length ≤ s'.g.nodes.length
  node : ∀ m, m < s.g.nodes.length → m ≠ n → s'.g.node m = s.g.node m
  inputs : ∀ m, m < s.g.nodes.length → m ≠ n → s'.g.inputs m = s.g.inputs m
  dead : (s'.g.node n).isDead = true
  unread : ∀ m, n ∉ s.g.inputs m
  fresh : ∀ m, s.g.nodes.length ≤ m → m < s'.g.nodes.length → SinkNode s'.g m
  edges : ∀ a ∈ s'.g.inputs n, a ∈ s.g.inputs n ∨ s'.g.Live a ∨ a = n
  settled : s'.g.nodes.length ≤ kInvalidNodeId → ∀ a ∈ s'.g.inputs n, a = n ∨ Settled s' a
  sinks : ∀ m, m ≠ n → IsSink s m → IsSink s' m
  frames : s'.g.fsDesc = s.g.fsDesc ∧ s'.g.fsVobjs = s.g.fsVobjs
  counts : s'.b.exceeded = false ∧ s'.t.removals = s.t.removals + 1

section Kill

variable {n : NodeId} {s s' : PassRun}

theorem unread_of_useCount (hTidy : Tidy s) (hUses : useCount s.g n = 0) (m : NodeId) :
    n ∉ s.g.inputs m := by
  intro hMem
  obtain ⟨i, hi⟩ := getElem?_of_mem hMem
  have hCount := hTidy.uses.counts n m i
  have hNil : s.g.usesOf n = [] := length_eq_zero_iff.mp hUses
  rw [if_pos hi, hNil, count_nil] at hCount
  cases hCount

/-- The edges have moved; the node becomes a tombstone. -/
theorem removes_killNode (hLoose : Loose n s)
    (hLive : n < s.g.nodes.length ∧ (s.g.node n).isDead = false)
    (hKind : isDceSafe (s.g.node n).kind = true) (hUnread : ∀ m, n ∉ s.g.inputs m)
    (hBudget : s.b.exceeded = false) {s₁ : PassRun} (hTidy : Tidy s) (hMoves : Moves n s s₁)
    (hSettled : s₁.g.nodes.length ≤ kInvalidNodeId → ∀ a ∈ s₁.g.inputs n, a = n ∨ Settled s₁ a) :
    Removes n s { s₁ with
      g := s₁.g.killNode n, t := { s₁.t with removals := s₁.t.removals + 1 } } := by
  have hNode := killNode_node s₁.g hMoves.ltAfter
  have hLength : (s₁.g.killNode n).nodes.length = s₁.g.nodes.length := killNode_length s₁.g
  have hEdges := Store.sameEdges_killNode (g := s₁.g) n
  have hOther : ∀ m, m ≠ n → (s₁.g.killNode n).node m = s₁.g.node m := by
    intro m hm
    rw [hNode, if_neg hm]
  have hSinks : ∀ m, m ≠ n → IsSink s₁ m → IsSink { s₁ with
      g := s₁.g.killNode n, t := { s₁.t with removals := s₁.t.removals + 1 } } m := by
    intro m hm h
    unfold IsSink at h ⊢
    rw [hOther m hm]
    exact h
  have hKill : ∀ m, m ≠ n → s₁.g.Live m → (s₁.g.killNode n).Live m := by
    rintro m hm (hStart | ⟨hLt, hDead⟩)
    · exact .inl hStart
    · refine .inr ⟨by rw [hLength]; exact hLt, ?_⟩
      rw [hOther m hm]
      exact hDead
  have hLoose₁ := hLoose.moves hTidy hMoves
  constructor
  · exact hLive
  · refine ⟨hEdges.ok hMoves.tidy.ok, hEdges.useDef hMoves.tidy.uses, ?_, ?_, ?_⟩
    · rw [hLength]
      exact hMoves.tidy.start
    · intro m
      rw [hLength]
      exact hMoves.tidy.junk.constants m
    intro m hm
    obtain ⟨hLt, hRegion, hDead⟩ := hMoves.tidy.junk.regions m hm
    -- a region is not removable
    have hNe : m ≠ n := by
      rintro rfl
      rw [hMoves.kind] at hRegion
      rw [hRegion] at hKind
      cases hKind
    rw [hLength, hOther m hNe]
    exact ⟨hLt, hRegion, hDead⟩
  · rw [hLength]
    exact hMoves.length
  · intro m hm hne
    rw [hOther m hne, hMoves.node m hm hne]
  · intro m hm hne
    rw [hEdges.inputs, hMoves.inputs m hm hne]
  · rw [hNode, if_pos rfl]
    exact Store.has_set_self _ _
  · exact hUnread
  · intro m hLe hLt
    rw [hLength] at hLt
    have hNe : m ≠ n := Nat.ne_of_gt (Nat.lt_of_lt_of_le hMoves.lt hLe)
    exact (hMoves.fresh m hLe hLt).congr (hOther m hNe) (hEdges.inputs m)
  · intro a ha
    rw [hEdges.inputs] at ha
    rcases hMoves.edges a ha with hOld | hSink
    · exact .inl hOld
    · by_cases hSelf : a = n
      · exact .inr (.inr hSelf)
      · exact .inr (.inl (hKill a hSelf (hSink.live hMoves.tidy)))
  · intro hIds a ha
    rw [hEdges.inputs] at ha
    rw [hLength] at hIds
    by_cases hSelf : a = n
    · exact .inl hSelf
    rcases hSettled hIds a ha with hBad | hSink | ⟨hLiveA, t, hType, hNone⟩
    · exact absurd hBad hSelf
    · exact .inr (.inl (hSinks a hSelf hSink))
    · have hAgree := hLoose₁.agreeOn hMoves.tidy (Nat.le_of_eq hLength.symm)
        (fun m _ hm => hOther m hm) (fun m _ _ => hEdges.inputs m)
      exact .inr (.inr ⟨hKill a hSelf hLiveA, t, hAgree.typeOf ⟨hLiveA, hSelf⟩ hType, hNone⟩)
  · intro m hm hSink
    exact hSinks m hm (hMoves.sinks m hSink)
  · have hFrames : (s₁.g.killNode n).fsDesc = s₁.g.fsDesc ∧
        (s₁.g.killNode n).fsVobjs = s₁.g.fsVobjs := by
      unfold Store.killNode
      split_ifs <;> exact ⟨rfl, rfl⟩
    exact ⟨hFrames.1.trans hMoves.frames.1, hFrames.2.trans hMoves.frames.2⟩
  · exact ⟨by rw [hMoves.counts.1]; exact hBudget, by rw [hMoves.counts.2]⟩

/-- Killing a node without referencers either removes it or finds the budget used up. -/
theorem kill_spec (hTidy : Tidy s) (hClosed : ∀ m a, s.g.Live m → a ∈ s.g.inputs m → s.g.Live a)
    (hLive : n < s.g.nodes.length ∧ (s.g.node n).isDead = false)
    (hStart : n ≠ Graph.startNode) (hKind : isDceSafe (s.g.node n).kind = true)
    (hUses : useCount s.g n = 0) {gone : Bool} (h : (kill n).run s = some (gone, s')) :
    (gone = true ∧ Removes n s s') ∨
      (gone = false ∧ s' = { s with b := { s.b with exceeded := true } }) := by
  have hUnread := unread_of_useCount hTidy hUses
  have hNil : s.g.usesOf n = [] := length_eq_zero_iff.mp hUses
  unfold kill at h
  rw [run_bind_graph] at h
  have hThere : ¬ (s.g.nodeCount ≤ n ∨ (s.g.node n).isDead = true) := by
    rw [hLive.2, Store.nodeCount]
    simp [hLive.1]
  rw [if_neg hThere, run_bind_eq_some] at h
  obtain ⟨ok, s₁, hCharge, h⟩ := h
  rcases run_charge hCharge with ⟨rfl, rfl, hBudget⟩ | ⟨rfl, rfl⟩
  · left
    have hTidy₁ : Tidy { s with b := { s.b with used := s.b.used + 1 } } :=
      ⟨hTidy.ok, hTidy.uses, hTidy.start, hTidy.junk.constants, hTidy.junk.regions⟩
    have hLoose : Loose n { s with b := { s.b with used := s.b.used + 1 } } :=
      ⟨hStart, hClosed, fun m _ ha => absurd ha (hUnread m)⟩
    rw [if_neg (by decide), hNil, any_nil, if_neg (by decide), junkReferencers,
      run_bind_eq_some] at h
    obtain ⟨_, s₂, hPure, h⟩ := h
    rw [run_pure_eq_some] at hPure
    obtain ⟨-, rfl⟩ := hPure
    rw [run_bind_eq_some] at h
    obtain ⟨_, s₃, hEdges, h⟩ := h
    rw [run_bind_eq_some] at h
    obtain ⟨_, s₄, hKill, h⟩ := h
    rw [run_onGraph] at hKill
    cases hKill
    rw [run_bind_eq_some] at h
    obtain ⟨_, s₅, hCount, h⟩ := h
    rw [run_modify] at hCount
    cases hCount
    rw [run_pure_eq_some] at h
    obtain ⟨rfl, rfl⟩ := h
    obtain ⟨hMoves, hSettled⟩ := junkEdges_spec hTidy₁ hLoose (.inr hLive) hKind hEdges
    have hRemoves := removes_killNode hLoose hLive hKind hUnread hBudget hTidy₁ hMoves hSettled
    exact ⟨rfl, { hRemoves with }⟩
  · right
    rw [if_pos (by decide), run_pure_eq_some] at h
    exact h

end Kill

/-! ## What a run has removed -/

/-- A live node dead code elimination may remove once nobody refers to it. -/
def Removable (g : Store) (n : NodeId) : Prop :=
  n < g.nodes.length ∧ (g.node n).isDead = false ∧ isDceSafe (g.node n).kind = true ∧
    n ≠ Graph.startNode ∧
    ¬((g.node n).kind = .frameState ∧ isCallerChained g (g.node n).payload = true)

/-- A tombstone the run made. -/
def Gone (g : Store) (s : PassRun) (n : NodeId) : Prop :=
  n < s.g.nodes.length ∧ (s.g.node n).isDead = true ∧
    ¬(n < g.nodes.length ∧ (g.node n).isDead = true)

/-- Where a run that began at `g` has come to. -/
structure Trimmed (g : Store) (s : PassRun) : Prop where
  tidy : Tidy s
  length : g.nodes.length ≤ s.g.nodes.length
  closed : ∀ m a, s.g.Live m → a ∈ s.g.inputs m → s.g.Live a
  kept : ∀ n, n < g.nodes.length → ¬Gone g s n → s.g.node n = g.node n ∧ s.g.inputs n = g.inputs n
  removable : ∀ n, Gone g s n → n ≠ Graph.startNode ∧ (n < g.nodes.length → Removable g n)
  unread : ∀ n m, Gone g s n → n ∈ s.g.inputs m → m = n
  held : s.g.nodes.length ≤ kInvalidNodeId →
    ∀ n a, Gone g s n → a ∈ s.g.inputs n → a = n ∨ Settled s a
  made : ∀ m, g.nodes.length ≤ m → m < s.g.nodes.length → ¬Gone g s m →
    ∀ a ∈ s.g.inputs m, a = Graph.startNode
  frames : s.g.fsDesc = g.fsDesc ∧ s.g.fsVobjs = g.fsVobjs

section Trimmed

variable {g : Store} {n : NodeId} {s s' : PassRun}

theorem trimmed_refl (hTidy : Tidy s)
    (hClosed : ∀ m a, s.g.Live m → a ∈ s.g.inputs m → s.g.Live a) : Trimmed s.g s := by
  have hNone : ∀ m, ¬Gone s.g s m := fun m h => h.2.2 ⟨h.1, h.2.1⟩
  constructor
  · exact hTidy
  · exact Nat.le_refl _
  · exact hClosed
  · exact fun _ _ _ => ⟨rfl, rfl⟩
  · exact fun m h => absurd h (hNone m)
  · exact fun m _ h => absurd h (hNone m)
  · exact fun _ m _ h => absurd h (hNone m)
  · exact fun m hLe hLt => absurd hLt (Nat.not_lt.mpr hLe)
  · exact ⟨rfl, rfl⟩

theorem Removes.gone_iff (hStep : Removes n s s') (h : Trimmed g s) (m : NodeId) :
    Gone g s' m ↔ Gone g s m ∨ m = n := by
  constructor
  · rintro ⟨hLt, hDead, hOld⟩
    by_cases hEq : m = n
    · exact .inr hEq
    · by_cases hm : m < s.g.nodes.length
      · rw [hStep.node m hm hEq] at hDead
        exact .inl ⟨hm, hDead, hOld⟩
      · rw [(hStep.fresh m (Nat.le_of_not_lt hm) hLt).alive] at hDead
        cases hDead
  · rintro (⟨hLt, hDead, hOld⟩ | rfl)
    · have hNe : m ≠ n := by
        rintro rfl
        rw [hStep.live.2] at hDead
        cases hDead
      refine ⟨Nat.lt_of_lt_of_le hLt hStep.length, ?_, hOld⟩
      rw [hStep.node m hLt hNe]
      exact hDead
    · refine ⟨Nat.lt_of_lt_of_le hStep.live.1 hStep.length, hStep.dead, ?_⟩
      rintro ⟨hLt, hDead⟩
      -- a tombstone of the first graph is still one
      have hNot : ¬Gone g s m := fun hGone => hGone.2.2 ⟨hLt, hDead⟩
      rw [← (h.kept m hLt hNot).1, hStep.live.2] at hDead
      cases hDead

theorem Gone.not_live (h : Trimmed g s) (hGone : Gone g s n) : ¬s.g.Live n := by
  rintro (hStart | ⟨-, hDead⟩)
  · exact (h.removable n hGone).1 hStart
  · rw [hGone.2.1] at hDead
    cases hDead

theorem Removes.live_iff (hStep : Removes n s s') (hStart : n ≠ Graph.startNode) {m : NodeId}
    (hm : m < s.g.nodes.length) : s'.g.Live m ↔ s.g.Live m ∧ m ≠ n := by
  unfold Store.Live
  by_cases hEq : m = n
  · subst hEq
    simp [hStart, hStep.dead]
  · rw [hStep.node m hm hEq]
    simp [hm, hEq, Nat.lt_of_lt_of_le hm hStep.length]

theorem Removes.settled_of (hStep : Removes n s s') (h : Trimmed g s)
    (hStart : n ≠ Graph.startNode) {a : NodeId} (hNe : a ≠ n) (ha : Settled s a) :
    Settled s' a := by
  rcases ha with hSink | ⟨hLive, t, hType, hNone⟩
  · exact .inl (hStep.sinks a hNe hSink)
  · have hLoose : Loose n s :=
      ⟨hStart, h.closed, fun m _ ha => absurd ha (hStep.unread m)⟩
    have hAgree := hLoose.agreeOn h.tidy hStep.length hStep.node hStep.inputs
    refine .inr ⟨?_, t, hAgree.typeOf ⟨hLive, hNe⟩ hType, hNone⟩
    exact (hStep.live_iff hStart (h.tidy.lt hLive)).mpr ⟨hLive, hNe⟩

theorem Trimmed.step (h : Trimmed g s) (hRemovable : Removable s.g n) (hStep : Removes n s s') :
    Trimmed g s' := by
  obtain ⟨-, hAlive, hKind, hStart, hChain⟩ := hRemovable
  have hGone := hStep.gone_iff h
  have hNotGone : ¬Gone g s n := by
    intro hBad
    rw [hBad.2.1] at hAlive
    cases hAlive
  constructor
  · exact hStep.tidy
  · exact Nat.le_trans h.length hStep.length
  · intro m a hm ha
    by_cases hLt : m < s.g.nodes.length
    · obtain ⟨hOld, hNe⟩ := (hStep.live_iff hStart hLt).mp hm
      rw [hStep.inputs m hLt hNe] at ha
      have hLiveA := h.closed m a hOld ha
      refine (hStep.live_iff hStart (h.tidy.lt hLiveA)).mpr ⟨hLiveA, ?_⟩
      rintro rfl
      exact hStep.unread m ha
    · rcases hm with hEq | ⟨hLt', -⟩
      · rw [hEq] at hLt
        exact absurd h.tidy.start hLt
      · exact .inl ((hStep.fresh m (Nat.le_of_not_lt hLt) hLt').reads a ha)
  · intro m hm hNot
    rw [hGone, not_or] at hNot
    have hLt := Nat.lt_of_lt_of_le hm h.length
    rw [hStep.node m hLt hNot.2, hStep.inputs m hLt hNot.2]
    exact h.kept m hm hNot.1
  · intro m hm
    rcases (hGone m).mp hm with hOld | rfl
    · exact h.removable m hOld
    refine ⟨hStart, fun hLt => ?_⟩
    have hSame := (h.kept m hLt hNotGone).1
    rw [hSame] at hAlive hKind hChain
    refine ⟨hLt, hAlive, hKind, hStart, ?_⟩
    unfold isCallerChained at hChain ⊢
    rw [← h.frames.1]
    exact hChain
  · intro x m hx hMem
    by_cases hm : m = n
    · -- the edges of the new tombstone lead to operands it had or to live nodes
      subst hm
      rcases (hGone x).mp hx with hOld | hEq
      · rcases hStep.edges x hMem with hOperand | hLive | hEq
        · exact h.unread x m hOld hOperand
        · have hLiveX := (hStep.live_iff hStart hOld.1).mp hLive
          exact absurd hLiveX.1 (hOld.not_live h)
        · exact hEq.symm
      · exact hEq.symm
    · by_cases hLt : m < s.g.nodes.length
      · rw [hStep.inputs m hLt hm] at hMem
        rcases (hGone x).mp hx with hOld | rfl
        · exact h.unread x m hOld hMem
        · exact absurd hMem (hStep.unread m)
      · have hStart' : x = Graph.startNode := by
          by_cases hLt' : m < s'.g.nodes.length
          · exact (hStep.fresh m (Nat.le_of_not_lt hLt) hLt').reads x hMem
          · have hNil : s'.g.inputs m = [] := by
              rw [Store.inputs, Store.node_of_le (Nat.le_of_not_lt hLt')]
              exact take_zero
            rw [hNil] at hMem
            cases hMem
        rcases (hGone x).mp hx with hOld | hEq
        · exact absurd hStart' (h.removable x hOld).1
        · exact absurd (hEq ▸ hStart') hStart
  · intro hIds x a hx ha
    rcases (hGone x).mp hx with hOld | rfl
    · have hNe : x ≠ n := by
        rintro rfl
        exact hNotGone hOld
      rw [hStep.inputs x hOld.1 hNe] at ha
      have hNeA : a ≠ n := by
        rintro rfl
        exact hStep.unread x ha
      rcases h.held (Nat.le_trans hStep.length hIds) x a hOld ha with hSelf | hSettled
      · exact .inl hSelf
      · exact .inr (hStep.settled_of h hStart hNeA hSettled)
    · exact hStep.settled hIds a ha
  · intro m hLe hLt hNot a ha
    rw [hGone, not_or] at hNot
    by_cases hOld : m < s.g.nodes.length
    · rw [hStep.inputs m hOld hNot.2] at ha
      exact h.made m hLe hOld hNot.1 a ha
    · exact (hStep.fresh m (Nat.le_of_not_lt hOld) hLt).reads a ha
  · exact ⟨hStep.frames.1.trans h.frames.1, hStep.frames.2.trans h.frames.2⟩

end Trimmed

/-- One more sweep finds nothing to remove, and the budget was not used up. -/
def DceConverged (fuel : Nat) (s : PassRun) : Prop :=
  s.b.exceeded = false ∧ (sweepNodes dceVisit fuel 0).run s = some (false, s)

section Sweeps

variable {g : Store} {n fuel : Nat} {s s' : PassRun} {changed : Bool}

theorem Trimmed.of_budget (h : Trimmed g s) (b : Budget) : Trimmed g { s with b } where
  tidy := ⟨h.tidy.ok, h.tidy.uses, h.tidy.start, h.tidy.junk.constants, h.tidy.junk.regions⟩
  length := h.length
  closed := h.closed
  kept := h.kept
  removable := h.removable
  unread := h.unread
  held := h.held
  made := h.made
  frames := h.frames

/-- A visit removes the node, leaves everything alone, or finds the budget used up. -/
theorem dceVisit_spec (h : Trimmed g s) (hn : n < s.g.nodes.length)
    (hRun : (dceVisit n).run s = some (changed, s')) :
    (changed = true ∧ Removable s.g n ∧ Removes n s s') ∨
      (changed = false ∧ s' = s ∧ ¬(Removable s.g n ∧ useCount s.g n = 0)) ∨
      (changed = false ∧ s' = { s with b := { s.b with exceeded := true } }) := by
  unfold dceVisit at hRun
  rw [run_bind_graph] at hRun
  dsimp only at hRun
  split at hRun
  · rename_i hNot
    rw [run_pure_eq_some] at hRun
    refine .inr (.inl ⟨hRun.1, hRun.2, ?_⟩)
    rintro ⟨⟨-, hAlive, hKind, hStart, -⟩, -⟩
    rcases hNot with hDead | hUnsafe | hEq
    · rw [hAlive] at hDead
      cases hDead
    · rw [hKind] at hUnsafe
      cases hUnsafe
    · exact hStart hEq
  rename_i hCandidate
  rw [not_or, not_or, Bool.not_eq_true, Bool.not_eq_false] at hCandidate
  split at hRun
  · rename_i hChained
    rw [run_pure_eq_some] at hRun
    exact .inr (.inl ⟨hRun.1, hRun.2, fun hBad => hBad.1.2.2.2.2 hChained⟩)
  rename_i hFree
  split at hRun
  · rename_i hUses
    have hLive : n < s.g.nodes.length ∧ (s.g.node n).isDead = false := ⟨hn, hCandidate.1⟩
    rcases kill_spec h.tidy h.closed hLive hCandidate.2.2 hCandidate.2.1 hUses hRun with
      ⟨hTrue, hRemoves⟩ | hOver
    · exact .inl ⟨hTrue, ⟨hn, hCandidate.1, hCandidate.2.1, hCandidate.2.2, hFree⟩, hRemoves⟩
    · exact .inr (.inr hOver)
  · rename_i hUses
    rw [run_pure_eq_some] at hRun
    exact .inr (.inl ⟨hRun.1, hRun.2, fun hBad => hUses hBad.2⟩)

theorem dceSweep_spec (h : Trimmed g s)
    (hRun : (sweepNodes dceVisit fuel n).run s = some (changed, s')) :
    Trimmed g s' ∧ (s.t.removals + changed.toNat ≤ s'.t.removals) ∧
      (changed = false → s'.b.exceeded = false → s' = s ∧
        ∀ m, n ≤ m → m < s.g.nodes.length → ¬(Removable s.g m ∧ useCount s.g m = 0)) := by
  induction fuel generalizing n s changed with
  | zero => cases hRun
  | succ fuel ih =>
    rw [sweepNodes, run_bind_eq_some] at hRun
    obtain ⟨s₀, t₀, hGet, hRun⟩ := hRun
    rw [run_get] at hGet
    cases hGet
    split at hRun
    · rename_i hGo
      rw [run_bind_eq_some] at hRun
      obtain ⟨here, s₁, hVisit, hRun⟩ := hRun
      rw [run_bind_eq_some] at hRun
      obtain ⟨later, s₂, hRest, hRun⟩ := hRun
      rw [run_pure_eq_some] at hRun
      obtain ⟨rfl, rfl⟩ := hRun
      rcases dceVisit_spec h hGo.1 hVisit with
        ⟨rfl, hRemovable, hRemoves⟩ | ⟨rfl, rfl, hNot⟩ | ⟨rfl, rfl⟩
      · obtain ⟨hTrimmed, hCount, -⟩ := ih (h.step hRemovable hRemoves) hRest
        have hOne := hRemoves.counts.2
        have hBool := Bool.toNat_le later
        refine ⟨hTrimmed, ?_, fun hBad => by cases hBad⟩
        show s.t.removals + 1 ≤ _
        omega
      · obtain ⟨hTrimmed, hCount, hStop⟩ := ih h hRest
        refine ⟨hTrimmed, hCount, ?_⟩
        intro hSame hBudget
        obtain ⟨hEq, hAll⟩ := hStop hSame hBudget
        refine ⟨hEq, ?_⟩
        intro m hLe hLt
        by_cases hm : m = n
        · rw [hm]
          exact hNot
        · exact hAll m (by omega) hLt
      · -- the budget is used up, so the sweep ends here
        obtain ⟨hTrimmed, hCount, hStop⟩ := ih (h.of_budget _) hRest
        refine ⟨hTrimmed, hCount, ?_⟩
        intro hSame hBudget
        obtain ⟨hEq, -⟩ := hStop hSame hBudget
        rw [hEq] at hBudget
        cases hBudget
    · rename_i hStop
      rw [run_pure_eq_some] at hRun
      obtain ⟨rfl, rfl⟩ := hRun
      refine ⟨h, Nat.le_refl _, ?_⟩
      intro _ hBudget
      refine ⟨rfl, ?_⟩
      intro m hLe hLt
      exact absurd ⟨Nat.lt_of_le_of_lt hLe hLt, hBudget⟩ hStop

/-- The loop ends with a sweep that found nothing, with the budget used up, or after a
removal in every sweep. -/
theorem dceSweeps_spec {sweeps : Nat} (h : Trimmed g s)
    (hRun : (dceSweeps fuel sweeps).run s = some ((), s')) :
    Trimmed g s' ∧ (DceConverged fuel s' ∨ s'.b.exceeded = true ∨
      s.t.removals + sweeps ≤ s'.t.removals) := by
  induction sweeps generalizing s with
  | zero =>
    rw [dceSweeps, run_pure_eq_some] at hRun
    obtain ⟨-, rfl⟩ := hRun
    exact ⟨h, .inr (.inr (Nat.le_refl _))⟩
  | succ sweeps ih =>
    rw [dceSweeps, run_bind_eq_some] at hRun
    obtain ⟨changed, s₁, hSweep, hRun⟩ := hRun
    obtain ⟨hTrimmed, hCount, hStop⟩ := dceSweep_spec h hSweep
    cases changed with
    | true =>
      obtain ⟨hEnd, hCases⟩ := ih hTrimmed hRun
      refine ⟨hEnd, ?_⟩
      rcases hCases with hConverged | hOver | hMany
      · exact .inl hConverged
      · exact .inr (.inl hOver)
      · rw [Bool.toNat_true] at hCount
        exact .inr (.inr (by omega))
    | false =>
      rw [if_neg (by decide), run_pure_eq_some] at hRun
      obtain ⟨-, rfl⟩ := hRun
      refine ⟨hTrimmed, ?_⟩
      by_cases hOver : s'.b.exceeded = true
      · exact .inr (.inl hOver)
      · rw [Bool.not_eq_true] at hOver
        obtain ⟨rfl, -⟩ := hStop rfl hOver
        exact .inl ⟨hOver, hSweep⟩

end Sweeps

end B2Compiler.Passes
