import B2Compiler.Ir.PathValues
import B2Compiler.Ir.Verifier

/-!
# Parts two graphs agree on

A set of nodes that is closed under operands is a graph of its own: whatever is outside
it, the nodes in it yield the same values on the same paths and have the same types.
Removing nodes nobody in the set refers to, and making new ones, leaves such a part alone.
-/

namespace B2Compiler.Ir

open Lib Option Nat Image

namespace Store

/-- The two graphs have the same nodes in the part, and no operand leads out of it. -/
structure AgreeOn (part : NodeId → Prop) (g g' : Store) : Prop where
  lt : ∀ n, part n → n < g.nodes.length
  length : g.nodes.length ≤ g'.nodes.length
  node : ∀ n, part n → g'.node n = g.node n
  inputs : ∀ n, part n → g'.inputs n = g.inputs n
  closed : ∀ n a, part n → a ∈ g.inputs n → part a

section

variable {part : NodeId → Prop} {g g' : Store}

/-- The nodes of the part yield what they yielded. -/
theorem AgreeOn.eval (h : AgreeOn part g g') (W : Valuation) (fuel : Nat) (path : CtrlPath)
    {n : NodeId} (hn : part n) : g'.eval W fuel path n = g.eval W fuel path n := by
  induction fuel generalizing path n with
  | zero => rfl
  | succ fuel ih =>
    have hNode := h.node n hn
    have hInputs := h.inputs n hn
    unfold Store.eval
    rw [hNode, hInputs]
    cases hKind : (g.node n).kind.placement with
    | merge =>
      -- only the operand for the last entry of the merge is asked
      rcases (g.inputs n)[0]? with _ | r
      · rfl
      rcases hVisit : lastVisit r path with _ | ⟨slot, before⟩
      · simp [hVisit]
      rcases hx : (g.inputs n)[slot + 1]? with _ | x
      · simp [hVisit, hx]
      · have hPart : part x := h.closed n x hn (List.mem_of_getElem? hx)
        simp [hVisit, hx, ih before hPart]
    | fixed => rfl
    | floating =>
      have hAll : (g.inputs n).mapM (g'.eval W fuel path) =
          (g.inputs n).mapM (g.eval W fuel path) := by
        apply mapM_congr_mem
        intro a ha
        exact ih path (h.closed n a hn ha)
      dsimp only
      rw [hAll]

/-! ## Types -/

theorem AgreeOn.image (h : AgreeOn part g g') {n : NodeId} (hn : part n) :
    g'.image.node n = g.image.node n := by
  have hLt := h.lt n hn
  rw [node_image g hLt, node_image g' (Nat.lt_of_lt_of_le hLt h.length), nodeImage, nodeImage,
    h.node n hn, h.inputs n hn]

end

end Store

/-- Joining the types of a list of operands, when each answer is an answer there too. -/
theorem foldlM_join_of_imp {ask ask' : NodeId → Option RawType} {vs : List NodeId}
    (hAsk : ∀ v ∈ vs, ∀ t, ask v = some t → ask' v = some t) {t₀ t : RawType}
    (h : vs.foldlM (fun t w => do return RawType.join t (← ask w)) t₀ = some t) :
    vs.foldlM (fun t w => do return RawType.join t (← ask' w)) t₀ = some t := by
  induction vs generalizing t₀ with
  | nil => exact h
  | cons v vs ih =>
    rw [List.foldlM_cons, bind_eq_bind, bind_eq_some_iff] at h
    obtain ⟨joined, hJoined, hRest⟩ := h
    obtain ⟨tv, hv, hEq⟩ := bind_eq_some_iff.mp hJoined
    rw [List.foldlM_cons, bind_eq_bind, bind_eq_some_iff]
    refine ⟨joined, ?_, ih (fun w hw => hAsk w (List.mem_cons_of_mem _ hw)) hRest⟩
    exact bind_eq_some_iff.mpr ⟨tv, hAsk v List.mem_cons_self tv hv, hEq⟩

/-- The recursion by its functional: the match over the kinds is too large for an equation
lemma. -/
theorem resultTypeOf_succ (im : Image) (f : Nat) (n : NodeId) :
    ∃ below, below.1 = im.resultTypeOf f ∧
      im.resultTypeOf (f + 1) n = Image.resultTypeOf._f im (f + 1) below n := by
  constructor
  constructor
  rotate_left
  all_goals
    delta Image.resultTypeOf Nat.brecOn Nat.brecOn.go
    rfl

/-- One nested question: a node read alike has a type again when its operands have. -/
theorem resultTypeOf_step {im im' : Image} {f f' : Nat} {n : NodeId} {t : RawType}
    (hNode : im'.node n = im.node n)
    (hAsk : ∀ v ∈ (im.node n).inputs, ∀ t,
      im.resultTypeOf f v = some t → im'.resultTypeOf f' v = some t)
    (h : im.resultTypeOf (f + 1) n = some t) : im'.resultTypeOf (f' + 1) n = some t := by
  obtain ⟨below, hBelow, hEq⟩ := resultTypeOf_succ im f n
  obtain ⟨below', hBelow', hEq'⟩ := resultTypeOf_succ im' f' n
  rw [hEq] at h
  rw [hEq']
  rw [← hBelow, ← hBelow'] at hAsk
  unfold resultTypeOf._f at h ⊢
  dsimp only at h ⊢
  rw [hNode]
  generalize im.node n = nd at hAsk h
  rcases nd with ⟨kind, flags, payload, payload2, constValue, specMeta, epoch, reserved, ins⟩
  cases kind
  case bitCast =>
    rcases ins with _ | ⟨v, vs⟩
    · exact h
    · exact hAsk v List.mem_cons_self t h
  case phi =>
    rcases ins with _ | ⟨r, _ | ⟨v, vs⟩⟩
    · exact h
    · exact h
    · obtain ⟨tv, hv, hRest⟩ := bind_eq_some_iff.mp h
      refine bind_eq_some_iff.mpr ⟨tv, hAsk v (by simp) tv hv, ?_⟩
      exact foldlM_join_of_imp (fun w hw => hAsk w (by simp [hw])) hRest
  all_goals exact h

namespace Store

section

variable {part : NodeId → Prop} {g g' : Store}

theorem AgreeOn.resultTypeOf (h : AgreeOn part g g') {f f' : Nat} (hLe : f ≤ f') {n : NodeId}
    (hn : part n) {t : RawType} (hType : g.image.resultTypeOf f n = some t) :
    g'.image.resultTypeOf f' n = some t := by
  induction f generalizing f' n t with
  | zero => cases hType
  | succ f ih =>
    obtain ⟨f', rfl⟩ := Nat.exists_eq_add_of_le' (Nat.le_trans (Nat.succ_pos f) hLe)
    refine resultTypeOf_step (h.image hn) ?_ hType
    intro v hv t hOperand
    rw [node_image g (h.lt n hn)] at hv
    exact ih (le_of_succ_le_succ hLe) (h.closed n v hn hv) hOperand

theorem AgreeOn.typeOf (h : AgreeOn part g g') {n : NodeId} (hn : part n) {t : RawType}
    (hType : g.image.typeOf n = some t) : g'.image.typeOf n = some t := by
  refine h.resultTypeOf ?_ hn hType
  rw [Image.nodeCount, Image.nodeCount, length_image_nodes, length_image_nodes]
  exact Nat.succ_le_succ h.length

end

end Store

end B2Compiler.Ir
