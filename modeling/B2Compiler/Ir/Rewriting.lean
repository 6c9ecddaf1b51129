import B2Compiler.Ir.PathValues
import B2Compiler.Ir.Verifier

/-!
# Rewriting a graph without changing its values

When may a node be replaced?  A `Rewrite` from one graph to the next sends every live
node to the node that stands for it afterwards.  A node that stands for itself keeps its
operation and its operands, up to the rewrite; any other node must be sent to one that is
available wherever it is and that has its value wherever it has one.

`Rewrite.refines` lifts these local conditions to whole graphs with loops: every value
on every control path, and every exception thrown by a division, is kept.  It rests on
`Wired`, what a verified graph in static single assignment form promises of its live
nodes, and `Rewrite.wired` says that the next graph promises it too, so that rewrites
compose.  `Quiet` is the other kind of step: nodes are made, tombstones are rewired and
no live node is touched.

The edges of control are a parameter: paths are those of the graph the rewriting began
with.
-/

namespace B2Compiler.Ir

open Lib List

/-- Everything a record holds beside its slice. -/
abbrev NodeRec.tags (nd : NodeRec) : NodeImage := nd.image []

/-- Integer operations whose operands may be exchanged. -/
def NodeKind.isCommutativeInt : NodeKind → Bool
  | .addI | .mulI | .andI | .orI | .xorI | .addL | .mulL | .andL | .orL | .xorL => true
  | _ => false

namespace Store

section

variable (edge : NodeId → Nat → NodeId → Prop)

/-- The live part of the graph is closed, well typed in control and in single assignment
form, and it has the given edges of control. -/
structure Wired (g : Store) : Prop where
  start : 0 < g.nodes.length ∧ (g.node Graph.startNode).kind = .start
  closed : ∀ n a, g.Live n → a ∈ g.inputs n → g.Live a
  control : ∀ n slot c, g.Live n → (g.node n).kind.ctrlSlot slot = true →
    (g.inputs n)[slot]? = some c → producesControl (g.node c).kind = true
  merges : ∀ p r, g.Live p → (g.node p).kind = .phi → (g.inputs p)[0]? = some r →
    (g.node r).kind ≠ .start
  arity : ∀ n, g.Live n → (info (g.node n).kind).roles.length ≤ (g.inputs n).length
  edges : ∀ c slot u, edge c slot u → g.CtrlEdge c slot u
  ssa : g.SsaAlong edge

/-- A live node whose value is settled when control has gone the path. -/
def KnownAt (g : Store) (path : CtrlPath) (n : NodeId) : Prop :=
  g.Live n ∧ Path edge entryVisit path ∧
    ∃ b i rest, path = (b, i) :: rest ∧ g.AvailableAlong edge n b

variable (W : Valuation)

/-- Every live node has a stand-in with its values, on all paths; a node that throws
stands for itself and still throws. -/
structure Refines (g g' : Store) (σ : NodeId → NodeId) : Prop where
  live : ∀ n, g.Live n → g'.Live (σ n)
  available : ∀ n b, g.Live n → g.AvailableAlong edge n b → g'.AvailableAlong edge (σ n) b
  value : ∀ fuel path n v, g.KnownAt edge path n → g.eval W fuel path n = some (.val v) →
    g'.eval W fuel path (σ n) = some (.val v)
  throws : ∀ path n, g.KnownAt edge path n → g.Throws W path n → σ n = n ∧ g'.Throws W path n

/-- The node keeps its operation, and its operands up to the rewrite. -/
structure Mirrored (g g' : Store) (σ : NodeId → NodeId) (n : NodeId) : Prop where
  live : g'.Live n
  tags : (g'.node n).tags = (g.node n).tags
  inputs : g'.inputs n = (g.inputs n).map σ ∨ ((g.node n).kind.isCommutativeInt = true ∧
      ∃ a b, g.inputs n = [a, b] ∧ g'.inputs n = [σ b, σ a])

/-- One node may stand for another one. -/
structure StandsFor (g : Store) (n rep : NodeId) : Prop where
  live : g.Live rep
  noControl : producesControl (g.node n).kind = false
  noEdges : (g.node n).kind = .phi ∨ ∀ slot, (g.node n).kind.ctrlSlot slot = false
  available : ∀ b, g.AvailableAlong edge n b → g.AvailableAlong edge rep b
  value : ∀ fuel path v, g.KnownAt edge path n → g.eval W fuel path n = some (.val v) →
    g.eval W fuel path rep = some (.val v)
  quiet : ∀ path, g.KnownAt edge path n → ¬ g.Throws W path n

/-- The local conditions on a rewrite. -/
structure Rewrite (g g' : Store) (σ : NodeId → NodeId) : Prop where
  length : g'.nodes.length = g.nodes.length
  kinds : ∀ n, (g'.node n).kind = (g.node n).kind
  mirrored : ∀ n, g.Live n → σ n = n → Mirrored g g' σ n
  standsFor : ∀ n, g.Live n → σ n ≠ n → StandsFor edge W g n (σ n)
  settled : ∀ n, g.Live n → σ (σ n) = σ n
  left : ∀ n, g'.Live n → g.Live n ∧ σ n = n

end

/-- A live node without operands of its own making: no phi, well typed in control. -/
structure FreshNode (g : Store) (n : NodeId) : Prop where
  live : (g.node n).isDead = false
  noPhi : (g.node n).kind ≠ .phi
  closed : ∀ a ∈ g.inputs n, g.Live a
  control : ∀ slot c, (g.node n).kind.ctrlSlot slot = true → (g.inputs n)[slot]? = some c →
    producesControl (g.node c).kind = true
  arity : (info (g.node n).kind).roles.length ≤ (g.inputs n).length

/-- Nodes were made and tombstones rewired; no live node was touched. -/
structure Quiet (g g' : Store) : Prop where
  length : g.nodes.length ≤ g'.nodes.length
  tags : ∀ n, n < g.nodes.length → (g'.node n).tags = (g.node n).tags
  inputs : ∀ n, g.Live n → g'.inputs n = g.inputs n
  fresh : ∀ n, g.nodes.length ≤ n → n < g'.nodes.length → FreshNode g' n
  log : g'.replacements = g.replacements

theorem forall₂_imp_mem {α β : Type} {R S : α → β → Prop} {l : List α} {m : List β}
    (h : List.Forall₂ R l m) (hImp : ∀ a b, a ∈ l → R a b → S a b) : List.Forall₂ S l m := by
  induction h with
  | nil => exact .nil
  | cons hab _ ih =>
    exact .cons (hImp _ _ mem_cons_self hab) (ih fun a b ha => hImp a b (mem_cons_of_mem _ ha))

/-! ## Records with the same tags -/

section Tags

variable {nd nd' : NodeRec} {W : Valuation}

variable (h : nd'.tags = nd.tags)
include h

theorem kind_of_tags : nd'.kind = nd.kind := congrArg NodeImage.kind h

theorem neverNull_of_tags : nd'.neverNull = nd.neverNull := by
  have hFlags : nd'.flags = nd.flags := congrArg NodeImage.flags h
  rw [NodeRec.neverNull, NodeRec.neverNull, hFlags, kind_of_tags h]

theorem settle_of_tags : nd'.settle = nd.settle := by
  funext o
  cases o with
  | trap => rfl
  | val v => rw [NodeRec.settle, NodeRec.settle, neverNull_of_tags h]

theorem dividesByZero_of_tags (vs : List Val) : nd'.dividesByZero vs = nd.dividesByZero vs := by
  unfold NodeRec.dividesByZero
  rw [kind_of_tags h]

theorem operate_of_tags (vs : List Val) : nd'.operate W vs = nd.operate W vs := by
  have hKind := kind_of_tags h
  have hPayload : nd'.payload = nd.payload := congrArg NodeImage.payload h
  have hPayload2 : nd'.payload2 = nd.payload2 := congrArg NodeImage.payload2 h
  have hConst : nd'.constValue = nd.constValue := congrArg NodeImage.constValue h
  have hNull := neverNull_of_tags h
  simp only [NodeRec.operate, NodeRec.settle, dividesByZero_of_tags h, NodeRec.compute, hKind,
    hPayload, hPayload2, hConst, hNull]

theorem operateOn_of_tags (os : List Outcome) : nd'.operateOn W os = nd.operateOn W os := by
  rw [NodeRec.operateOn, NodeRec.operateOn, operate_of_tags h]

end Tags

theorem placement_of_commutative {k : NodeKind} (h : k.isCommutativeInt = true) :
    k.placement = .floating := by
  cases k <;> first | rfl | cases h

theorem dividesByZero_of_commutative {nd : NodeRec} (h : nd.kind.isCommutativeInt = true)
    (vs : List Val) : nd.dividesByZero vs = false := by
  have hDiv : (nd.kind == .divI || nd.kind == .remI) = false ∧
      (nd.kind == .divL || nd.kind == .remL) = false := by
    cases hKind : nd.kind <;> rw [hKind] at h <;> first | exact ⟨rfl, rfl⟩ | cases h
  unfold NodeRec.dividesByZero
  split
  · rw [hDiv.1, Bool.false_and]
  · rw [hDiv.2, Bool.false_and]
  · rfl

theorem binaryOp_comm {F : Interp.FloatOps} {k : NodeKind} (h : k.isCommutativeInt = true)
    (a b : Val) : binaryOp F k a b = binaryOp F k b a := by
  unfold NodeKind.isCommutativeInt at h
  split at h
  case h_11 => cases h
  all_goals cases a <;> cases b <;> try rfl
  · rw [binaryOp, binaryOp, Interp.wrapAdd32_eq, Interp.wrapAdd32_eq, BitVec.add_comm]
  · rw [binaryOp, binaryOp, Interp.wrapMul32_eq, Interp.wrapMul32_eq, BitVec.mul_comm]
  · rw [binaryOp, binaryOp, BitVec.and_comm]
  · rw [binaryOp, binaryOp, BitVec.or_comm]
  · rw [binaryOp, binaryOp, BitVec.xor_comm]
  · rw [binaryOp, binaryOp, Interp.wrapAdd64, Interp.wrapAdd64, BitVec.add_comm]
  · rw [binaryOp, binaryOp, Interp.wrapMul64, Interp.wrapMul64, BitVec.mul_comm]
  · rw [binaryOp, binaryOp, BitVec.and_comm]
  · rw [binaryOp, binaryOp, BitVec.or_comm]
  · rw [binaryOp, binaryOp, BitVec.xor_comm]

theorem operate_comm {nd : NodeRec} {W : Valuation} (h : nd.kind.isCommutativeInt = true)
    (a b : Val) : nd.operate W [a, b] = nd.operate W [b, a] := by
  have hCompute : nd.compute W [a, b] = nd.compute W [b, a] := by
    have hOp := binaryOp_comm (F := W.ops) h a b
    unfold NodeRec.compute
    cases hKind : nd.kind <;> rw [hKind] at h hOp <;> first
      | exact hOp
      | cases h
  rw [NodeRec.operate, NodeRec.operate, dividesByZero_of_commutative h,
    dividesByZero_of_commutative h, hCompute]

/-! ## Parts of the structure -/

section Structure

variable {edge : NodeId → Nat → NodeId → Prop} {W : Valuation} {g g' : Store}
  {σ : NodeId → NodeId}

theorem live_start (g : Store) : g.Live Graph.startNode := Or.inl rfl

theorem Wired.lt (hW : g.Wired edge) {n : NodeId} (h : g.Live n) : n < g.nodes.length := by
  rcases h with hStart | ⟨hLt, -⟩
  · rw [hStart]
    exact hW.start.1
  · exact hLt

variable {path : CtrlPath} {k : NodeKind}

/-- An operand of a node whose value is settled is settled. -/
theorem KnownAt.operand (hW : g.Wired edge) {n a : NodeId} (h : g.KnownAt edge path n)
    (hKind : (g.node n).kind.placement = .floating) (hMem : a ∈ g.inputs n) :
    g.KnownAt edge path a := by
  obtain ⟨hLive, hPath, b, i, rest, hEq, hAvail⟩ := h
  exact ⟨hW.closed n a hLive hMem, hPath, b, i, rest, hEq, availableAlong_operand hKind hMem hAvail⟩

theorem kind_of_merge (h : k.placement = .merge) : k = .phi := by
  unfold NodeKind.placement at h
  split at h
  · assumption
  · split at h <;> cases h

theorem ctrlSlot_phi : NodeKind.phi.ctrlSlot 0 = true := rfl

theorem ctrlSlot_of_fixed (h : k.placement = .fixed) : k.ctrlSlot 0 = true := by
  unfold NodeKind.placement at h
  split at h
  · cases h
  rw [head?_eq_getElem?] at h
  unfold NodeKind.ctrlSlot
  split at h
  · rename_i hRole
    rw [hRole]
    rfl
  · rename_i hRole
    rw [hRole]
    rfl
  · cases h

theorem KnownAt.entry (hW : g.Wired edge) {before : CtrlPath} {n r x : NodeId} {slot : Nat}
    (h : g.KnownAt edge path n) (hKind : (g.node n).kind = .phi)
    (hMerge : (g.inputs n)[0]? = some r) (hVisit : lastVisit r path = some (slot, before))
    (hx : (g.inputs n)[slot + 1]? = some x) : g.KnownAt edge before x := by
  obtain ⟨hLive, hPath, -⟩ := h
  obtain ⟨since, hSplit, -⟩ := lastVisit_eq_some hVisit
  rw [hSplit] at hPath
  have hAt : Path edge entryVisit ((r, slot) :: before) := hPath.of_append (by simp)
  cases hAt with
  | entry => exact absurd hW.start.2 (hW.merges n Graph.startNode hLive hKind hMerge)
  | @step a _ i _ rest hEdge hBefore =>
    exact ⟨hW.closed n x hLive (mem_of_getElem? hx), hBefore, a, i, rest, rfl,
      hW.ssa n r a x slot hLive hKind hMerge hEdge hx⟩

/-! ## What a rewrite keeps -/

theorem Rewrite.control (hR : g.Rewrite edge W g' σ) {c : NodeId} (hLive : g.Live c)
    (h : producesControl (g.node c).kind = true) : σ c = c := by
  by_contra hMoved
  have hNot := (hR.standsFor c hLive hMoved).noControl
  rw [h] at hNot
  cases hNot

/-- The slot of an operand and its operand, after the rewrite. -/
theorem Mirrored.slot {n : NodeId} (h : Mirrored g g' σ n)
    (hNot : (g.node n).kind.isCommutativeInt = false) (slot : Nat) :
    (g'.inputs n)[slot]? = ((g.inputs n)[slot]?).map σ := by
  rcases h.inputs with hMap | ⟨hComm, -⟩
  · rw [hMap, getElem?_map]
  · rw [hNot] at hComm
    cases hComm

theorem Mirrored.mem {n a' : NodeId} (h : Mirrored g g' σ n) (hMem : a' ∈ g'.inputs n) :
    ∃ a ∈ g.inputs n, σ a = a' := by
  rcases h.inputs with hMap | ⟨-, a, b, hIn, hIn'⟩
  · rw [hMap] at hMem
    exact mem_map.mp hMem
  · rw [hIn'] at hMem
    rw [hIn]
    rcases mem_pair.mp hMem with rfl | rfl
    · exact ⟨b, by simp, rfl⟩
    · exact ⟨a, by simp, rfl⟩

theorem not_commutative_of_placement (h : k.placement ≠ .floating) :
    k.isCommutativeInt = false := by
  rw [← Bool.not_eq_true]
  intro hComm
  exact h (placement_of_commutative hComm)

theorem not_commutative_of_ctrlSlot {slot : Nat} (h : k.ctrlSlot slot = true) :
    k.isCommutativeInt = false := by
  rw [← Bool.not_eq_true]
  intro hComm
  unfold NodeKind.isCommutativeInt at hComm
  split at hComm
  case h_11 => cases hComm
  all_goals
    rcases slot with _ | _ | slot <;> cases h

theorem Rewrite.live (hR : g.Rewrite edge W g' σ) {n : NodeId} (h : g.Live n) : g'.Live (σ n) := by
  by_cases hMoved : σ n = n
  · rw [hMoved]
    exact (hR.mirrored n h hMoved).live
  · have hRep := (hR.standsFor n h hMoved).live
    exact (hR.mirrored (σ n) hRep (hR.settled n h)).live

/-- What the stand-in of a node is settled at was a place of some node that had that
stand-in. -/
theorem Rewrite.dominates (hW : g.Wired edge) (hR : g.Rewrite edge W g' σ) {b m c : NodeId}
    (hPlace : g'.Place m c) (hLive : g.Live m) (hSelf : σ m = m)
    (h : g.AvailableAlong edge m b) : Dominates edge entryVisit c b := by
  induction hPlace with
  | @own m c hKind hInput =>
    have hMirror := hR.mirrored m hLive hSelf
    rw [hR.kinds] at hKind
    rw [hMirror.slot (not_commutative_of_placement hKind), Option.map_eq_some_iff] at hInput
    obtain ⟨c₀, hc₀, hEq⟩ := hInput
    have hSlot : (g.node m).kind.ctrlSlot 0 = true := by
      rcases hCase : (g.node m).kind.placement with _ | _ | _
      · rw [kind_of_merge hCase]
        exact ctrlSlot_phi
      · exact ctrlSlot_of_fixed hCase
      · exact absurd hCase hKind
    have hControl := hW.control m 0 c₀ hLive hSlot hc₀
    rw [hR.control (hW.closed m c₀ hLive (mem_of_getElem? hc₀)) hControl] at hEq
    subst hEq
    exact h _ (.own hKind hc₀)
  | @operand m a' c hKind hMem _ ih =>
    have hMirror := hR.mirrored m hLive hSelf
    rw [hR.kinds] at hKind
    obtain ⟨a, ha, hEq⟩ := hMirror.mem hMem
    have hLiveA := hW.closed m a hLive ha
    have hAvailA := availableAlong_operand hKind ha h
    subst hEq
    refine ih ?_ (hR.settled a hLiveA) ?_
    · by_cases hMoved : σ a = a
      · rw [hMoved]
        exact hLiveA
      · exact (hR.standsFor a hLiveA hMoved).live
    · by_cases hMoved : σ a = a
      · rw [hMoved]
        exact hAvailA
      · exact (hR.standsFor a hLiveA hMoved).available b hAvailA

theorem Rewrite.available (hW : g.Wired edge) (hR : g.Rewrite edge W g' σ) {n b : NodeId}
    (hLive : g.Live n) (h : g.AvailableAlong edge n b) : g'.AvailableAlong edge (σ n) b := by
  intro c hPlace
  by_cases hMoved : σ n = n
  · rw [hMoved] at hPlace
    exact hR.dominates hW hPlace hLive hMoved h
  · have hStand := hR.standsFor n hLive hMoved
    exact hR.dominates hW hPlace hStand.live (hR.settled n hLive) (hStand.available b h)

/-- Operands with values, and the operation that yields a value from them, after the
rewrite. -/
theorem Mirrored.operate {n : NodeId} (h : Mirrored g g' σ n) {fuel : Nat} {vs : List Val}
    {o : Outcome}
    (hAll : List.Forall₂ (fun a w => g'.eval W fuel path (σ a) = some (.val w)) (g.inputs n) vs)
    (hOp : (g.node n).operate W vs = some o) :
    ∃ ws, List.Forall₂ (fun a w => g'.eval W fuel path a = some (.val w)) (g'.inputs n) ws ∧
      (g'.node n).operate W ws = some o := by
  rcases h.inputs with hMap | ⟨hComm, a, b, hIn, hIn'⟩
  · refine ⟨vs, ?_, ?_⟩
    · rw [hMap, forall₂_map_left_iff]
      exact hAll
    · rw [operate_of_tags h.tags]
      exact hOp
  · rw [hIn] at hAll
    obtain ⟨x, xs, hx, hRest, rfl⟩ := forall₂_cons_left_iff.mp hAll
    obtain ⟨y, ys, hy, hNil, rfl⟩ := forall₂_cons_left_iff.mp hRest
    rw [forall₂_nil_left_iff.mp hNil] at hOp
    refine ⟨[y, x], ?_, ?_⟩
    · rw [hIn']
      exact .cons hy (.cons hx .nil)
    · rw [operate_of_tags h.tags, operate_comm hComm]
      exact hOp

section

variable (hW : g.Wired edge) (hR : g.Rewrite edge W g' σ)
include hW hR

/-- A node that stands for itself keeps its values if its operands do. -/
theorem Rewrite.value_self {fuel : Nat}
    (ih : ∀ path n v, g.KnownAt edge path n → g.eval W fuel path n = some (.val v) →
      g'.eval W fuel path (σ n) = some (.val v)) {n : NodeId} {v : Val}
    (hKnown : g.KnownAt edge path n) (hSelf : σ n = n)
    (h : g.eval W (fuel + 1) path n = some (.val v)) :
    g'.eval W (fuel + 1) path n = some (.val v) := by
  have hLive := hKnown.1
  have hMirror := hR.mirrored n hLive hSelf
  rcases hKind : (g.node n).kind.placement with _ | _ | _
  · -- a phi: the merge stays, and the operand for its last entry was settled there
    have hPhi := kind_of_merge hKind
    have hKind' : (g'.node n).kind.placement = .merge := by
      rw [hR.kinds]
      exact hKind
    have hNot : (g.node n).kind.isCommutativeInt = false :=
      not_commutative_of_placement (by rw [hKind]; nofun)
    obtain ⟨r, slot, before, x, hr, hVisit, hx, hVal, hFact⟩ := (eval_merge_iff hKind).mp h
    have hControl := hW.control n 0 r hLive (by rw [hPhi]; exact ctrlSlot_phi) hr
    have hFixed := hR.control (hW.closed n r hLive (mem_of_getElem? hr)) hControl
    refine (eval_merge_iff hKind').mpr ⟨r, slot, before, σ x, ?_, hVisit, ?_, ?_, ?_⟩
    · rw [hMirror.slot hNot, hr, Option.map_some, hFixed]
    · rw [hMirror.slot hNot, hx, Option.map_some]
    · exact ih before x v (hKnown.entry hW hPhi hr hVisit hx) hVal
    · rw [neverNull_of_tags hMirror.tags]
      exact hFact
  · -- fixed in control: the point of control stays
    have hKind' : (g'.node n).kind.placement = .fixed := by
      rw [hR.kinds]
      exact hKind
    have hNot : (g.node n).kind.isCommutativeInt = false :=
      not_commutative_of_placement (by rw [hKind]; nofun)
    rw [eval_fixed hKind] at h
    obtain ⟨c, hc, hRest⟩ := Option.bind_eq_some_iff.mp h
    have hControl := hW.control n 0 c hLive (ctrlSlot_of_fixed hKind) hc
    have hFixed := hR.control (hW.closed n c hLive (mem_of_getElem? hc)) hControl
    rw [eval_fixed hKind', hMirror.slot hNot, hc, Option.map_some, hFixed, Option.bind_some,
      settle_of_tags hMirror.tags]
    exact hRest
  · -- computed from operands, each of which has its value under its stand-in
    have hKind' : (g'.node n).kind.placement = .floating := by
      rw [hR.kinds]
      exact hKind
    obtain ⟨vs, hAll, hOp⟩ := (eval_floating_iff hKind).mp h
    have hMoved : List.Forall₂ (fun a w => g'.eval W fuel path (σ a) = some (.val w))
        (g.inputs n) vs := by
      apply forall₂_imp_mem hAll
      intro a w ha hVal
      exact ih path a w (hKnown.operand hW hKind ha) hVal
    exact (eval_floating_iff hKind').mpr (hMirror.operate hMoved hOp)

/-- The value of a node is the value of its stand-in in the next graph. -/
theorem Rewrite.value (fuel : Nat) :
    ∀ path n v, g.KnownAt edge path n → g.eval W fuel path n = some (.val v) →
      g'.eval W fuel path (σ n) = some (.val v) := by
  induction fuel with
  | zero =>
    intro path n v _ h
    cases h
  | succ fuel ih =>
    intro path n v hKnown h
    by_cases hMoved : σ n = n
    · rw [hMoved]
      exact hR.value_self hW ih hKnown hMoved h
    -- first to the stand-in in the same graph
    have hStand := hR.standsFor n hKnown.1 hMoved
    obtain ⟨hLive, hPath, b, i, rest, hEq, hAvail⟩ := hKnown
    have hKnownRep : g.KnownAt edge path (σ n) :=
      ⟨hStand.live, hPath, b, i, rest, hEq, hStand.available b hAvail⟩
    have hRep := hStand.value (fuel + 1) path v ⟨hLive, hPath, b, i, rest, hEq, hAvail⟩ h
    exact hR.value_self hW ih hKnownRep (hR.settled n hLive) hRep

theorem Rewrite.throws {n : NodeId}
    (hKnown : g.KnownAt edge path n) (h : g.Throws W path n) : σ n = n ∧ g'.Throws W path n := by
  have hSelf : σ n = n := by
    by_contra hMoved
    exact (hR.standsFor n hKnown.1 hMoved).quiet path hKnown h
  refine ⟨hSelf, ?_⟩
  have hMirror := hR.mirrored n hKnown.1 hSelf
  obtain ⟨hKind, fuel, vs, hAll, hZero⟩ := throws_iff.mp h
  have hMoved : List.Forall₂ (fun a w => g'.eval W fuel path (σ a) = some (.val w))
      (g.inputs n) vs := by
    apply forall₂_imp_mem hAll
    intro a w ha hVal
    exact hR.value hW fuel path a w (hKnown.operand hW hKind ha) hVal
  obtain ⟨ws, hAll', hOp⟩ := hMirror.operate hMoved (operate_eq_trap.mpr hZero)
  refine throws_iff.mpr ⟨?_, fuel, ws, hAll', operate_eq_trap.mp hOp⟩
  rw [hR.kinds]
  exact hKind

theorem Rewrite.refines : g.Refines edge W g' σ where
  live _ h := hR.live h
  available _ _ hLive h := hR.available hW hLive h
  value := hR.value hW
  throws _ _ hKnown h := hR.throws hW hKnown h

/-- The next graph promises what the graph promised. -/
theorem Rewrite.wired : g'.Wired edge := by
  constructor
  · rw [hR.length, hR.kinds]
    exact hW.start
  · intro n a' hLive hMem
    obtain ⟨hOld, hSelf⟩ := hR.left n hLive
    obtain ⟨a, ha, rfl⟩ := (hR.mirrored n hOld hSelf).mem hMem
    exact hR.live (hW.closed n a hOld ha)
  · intro n slot c' hLive hSlot hc'
    obtain ⟨hOld, hSelf⟩ := hR.left n hLive
    rw [hR.kinds] at hSlot
    rw [(hR.mirrored n hOld hSelf).slot (not_commutative_of_ctrlSlot hSlot),
      Option.map_eq_some_iff] at hc'
    obtain ⟨c, hc, rfl⟩ := hc'
    have hControl := hW.control n slot c hOld hSlot hc
    rw [hR.control (hW.closed n c hOld (mem_of_getElem? hc)) hControl, hR.kinds]
    exact hControl
  · intro p r' hLive hKind hr'
    obtain ⟨hOld, hSelf⟩ := hR.left p hLive
    rw [hR.kinds] at hKind ⊢
    have hNot : (g.node p).kind.isCommutativeInt = false := by
      rw [hKind]
      rfl
    rw [(hR.mirrored p hOld hSelf).slot hNot, Option.map_eq_some_iff] at hr'
    obtain ⟨r, hr, rfl⟩ := hr'
    have hControl := hW.control p 0 r hOld (by rw [hKind]; exact ctrlSlot_phi) hr
    rw [hR.control (hW.closed p r hOld (mem_of_getElem? hr)) hControl]
    exact hW.merges p r hOld hKind hr
  · intro n hLive
    obtain ⟨hOld, hSelf⟩ := hR.left n hLive
    rw [hR.kinds]
    have hLen := hW.arity n hOld
    rcases (hR.mirrored n hOld hSelf).inputs with hMap | ⟨-, a, b, hIn, hIn'⟩
    · rw [hMap, length_map]
      exact hLen
    · rw [hIn] at hLen
      rw [hIn']
      exact hLen
  · intro c slot u hEdge
    obtain ⟨hLive, hKind, hc, hSlot⟩ := hW.edges c slot u hEdge
    have hSelf : σ u = u := by
      by_contra hMoved
      rcases (hR.standsFor u hLive hMoved).noEdges with hPhi | hNone
      · exact hKind hPhi
      · rw [hNone] at hSlot
        cases hSlot
    have hMirror := hR.mirrored u hLive hSelf
    have hControl := hW.control u slot c hLive hSlot hc
    refine ⟨hMirror.live, ?_, ?_, ?_⟩
    · rw [hR.kinds]
      exact hKind
    · rw [hMirror.slot (not_commutative_of_ctrlSlot hSlot), hc, Option.map_some,
        hR.control (hW.closed u c hLive (mem_of_getElem? hc)) hControl]
    · rw [hR.kinds]
      exact hSlot
  · intro p r' a x' slot hLive hKind hr' hEdge hx'
    obtain ⟨hOld, hSelf⟩ := hR.left p hLive
    rw [hR.kinds] at hKind
    have hMirror := hR.mirrored p hOld hSelf
    have hNot : (g.node p).kind.isCommutativeInt = false := by
      rw [hKind]
      rfl
    rw [hMirror.slot hNot, Option.map_eq_some_iff] at hr' hx'
    obtain ⟨r, hr, rfl⟩ := hr'
    obtain ⟨x, hx, rfl⟩ := hx'
    have hControl := hW.control p 0 r hOld (by rw [hKind]; exact ctrlSlot_phi) hr
    rw [hR.control (hW.closed p r hOld (mem_of_getElem? hr)) hControl] at hEdge
    exact hR.available hW (hW.closed p x hOld (mem_of_getElem? hx))
      (hW.ssa p r a x slot hOld hKind hr hEdge hx)

end

/-! ## What a quiet step keeps -/

theorem isDead_of_tags {nd nd' : NodeRec} (h : nd'.tags = nd.tags) : nd'.isDead = nd.isDead := by
  have hFlags : nd'.flags = nd.flags := congrArg NodeImage.flags h
  rw [NodeRec.isDead, NodeRec.isDead, hFlags]

theorem quiet_refl (g : Store) : g.Quiet g where
  length := Nat.le_refl _
  tags _ _ := rfl
  inputs _ _ := rfl
  fresh _ hLe hLt := absurd hLt (Nat.not_lt.mpr hLe)
  log := rfl

theorem Quiet.live_iff (hQ : g.Quiet g') {n : NodeId} (hLt : n < g.nodes.length) :
    g'.Live n ↔ g.Live n := by
  rw [Live, Live, isDead_of_tags (hQ.tags n hLt)]
  have hLt' := Nat.lt_of_lt_of_le hLt hQ.length
  simp only [hLt, hLt', true_and]

theorem Quiet.live (hQ : g.Quiet g') {n : NodeId} (h : g.Live n) : g'.Live n := by
  rcases h with rfl | ⟨hLt, hDead⟩
  · exact live_start g'
  · exact (hQ.live_iff hLt).mpr (.inr ⟨hLt, hDead⟩)

theorem Quiet.eval (hW : g.Wired edge) (hQ : g.Quiet g') {fuel : Nat} {n : NodeId}
    (hLive : g.Live n) : g'.eval W fuel path n = g.eval W fuel path n := by
  induction fuel generalizing path n with
  | zero => rfl
  | succ fuel ih =>
    have hTags := hQ.tags n (hW.lt hLive)
    rw [Store.eval, Store.eval, kind_of_tags hTags, hQ.inputs n hLive, settle_of_tags hTags]
    rcases (g.node n).kind.placement with _ | _ | _
    · rcases hr : (g.inputs n)[0]? with _ | r
      · rfl
      rcases hVisit : lastVisit r path with _ | ⟨slot, before⟩
      · simp only [Option.bind_eq_bind, Option.bind_some, hVisit]
        rfl
      · rcases hx : (g.inputs n)[slot + 1]? with _ | x
        · simp only [Option.bind_eq_bind, Option.bind_some, hVisit, hx]
          rfl
        · have hLiveX := hW.closed n x hLive (mem_of_getElem? hx)
          simp only [Option.bind_eq_bind, Option.bind_some, hVisit, hx, ih hLiveX]
    · rfl
    · have hAll : (g.inputs n).mapM (g'.eval W fuel path) =
          (g.inputs n).mapM (g.eval W fuel path) := by
        apply mapM_congr_mem
        intro a ha
        exact ih (hW.closed n a hLive ha)
      simp only [hAll, operateOn_of_tags hTags]

theorem Quiet.place_iff (hW : g.Wired edge) (hQ : g.Quiet g') {n c : NodeId}
    (hLive : g.Live n) : g'.Place n c ↔ g.Place n c := by
  constructor
  · intro h
    induction h with
    | @own n c hKind hInput =>
      rw [kind_of_tags (hQ.tags n (hW.lt hLive))] at hKind
      rw [hQ.inputs n hLive] at hInput
      exact .own hKind hInput
    | @operand n a c hKind hMem _ ih =>
      rw [kind_of_tags (hQ.tags n (hW.lt hLive))] at hKind
      rw [hQ.inputs n hLive] at hMem
      exact .operand hKind hMem (ih (hW.closed n a hLive hMem))
  · intro h
    induction h with
    | @own n c hKind hInput =>
      rw [← kind_of_tags (hQ.tags n (hW.lt hLive))] at hKind
      rw [← hQ.inputs n hLive] at hInput
      exact .own hKind hInput
    | @operand n a c hKind hMem _ ih =>
      have hLiveA := hW.closed n a hLive hMem
      rw [← kind_of_tags (hQ.tags n (hW.lt hLive))] at hKind
      rw [← hQ.inputs n hLive] at hMem
      exact .operand hKind hMem (ih hLiveA)

theorem Quiet.availableAlong_iff (hW : g.Wired edge) (hQ : g.Quiet g') {n b : NodeId}
    (hLive : g.Live n) : g'.AvailableAlong edge n b ↔ g.AvailableAlong edge n b :=
  forall_congr' fun _ => imp_congr_left (hQ.place_iff hW hLive)

theorem Quiet.throws_iff (hW : g.Wired edge) (hQ : g.Quiet g') {n : NodeId} (hLive : g.Live n) :
    g'.Throws W path n ↔ g.Throws W path n := by
  have hTags := hQ.tags n (hW.lt hLive)
  have hAll : ∀ fuel, (g.inputs n).mapM (g'.eval W fuel path) =
      (g.inputs n).mapM (g.eval W fuel path) := by
    intro fuel
    apply mapM_congr_mem
    intro a ha
    exact hQ.eval hW (hW.closed n a hLive ha)
  simp only [Throws, kind_of_tags hTags, hQ.inputs n hLive, operate_of_tags hTags, hAll]

theorem Quiet.refines (hW : g.Wired edge) (hQ : g.Quiet g') : g.Refines edge W g' id where
  live _ h := hQ.live h
  available _ _ hLive h := (hQ.availableAlong_iff hW hLive).mpr h
  value _ _ _ _ hKnown h := by
    rw [id, hQ.eval hW hKnown.1]
    exact h
  throws _ _ hKnown h := ⟨rfl, (hQ.throws_iff hW hKnown.1).mpr h⟩

theorem KnownAt.refines {n : NodeId} (hRef : g.Refines edge W g' σ) (h : g.KnownAt edge path n) :
    g'.KnownAt edge path (σ n) := by
  obtain ⟨hLive, hPath, b, i, rest, hEq, hAvail⟩ := h
  exact ⟨hRef.live n hLive, hPath, b, i, rest, hEq, hRef.available n b hLive hAvail⟩

theorem Refines.trans {g'' : Store} {τ : NodeId → NodeId} (h : g.Refines edge W g' σ)
    (h' : g'.Refines edge W g'' τ) : g.Refines edge W g'' (τ ∘ σ) where
  live n hLive := h'.live _ (h.live n hLive)
  available n b hLive hAvail := h'.available _ b (h.live n hLive) (h.available n b hLive hAvail)
  value fuel path n v hKnown hVal :=
    h'.value fuel path (σ n) v (hKnown.refines h) (h.value fuel path n v hKnown hVal)
  throws path n hKnown hThrow := by
    obtain ⟨hSelf, hThrow'⟩ := h.throws path n hKnown hThrow
    have hKnown' := hKnown.refines h
    rw [hSelf] at hKnown'
    obtain ⟨hSelf', hThrow''⟩ := h'.throws path n hKnown' hThrow'
    exact ⟨by rw [Function.comp, hSelf, hSelf'], hThrow''⟩

end Structure

end Store

end B2Compiler.Ir
