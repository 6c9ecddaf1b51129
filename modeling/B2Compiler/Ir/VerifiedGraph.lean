import B2Compiler.Ir.Rewriting

/-!
# What acceptance says about a node

Acceptance is the absence of diagnostics, over all nodes and all passes of the verifier.
Read backwards it says of every node, tombstones included, that its inputs are alive,
that its control slots name nodes that make control, that a phi hangs off a merge and
that the fixed part of the signature is there.

`wired_of_accepted` is where a rewriting starts: an accepted graph in static single
assignment form keeps the promises of `Wired`.  The verifier does not check single
assignment.
-/

namespace B2Compiler.Ir

open Lib List

theorem mapM_flatten_nil {α β : Type} {f : α → Option (List β)} {l : List α} {r : List (List β)}
    (h : l.mapM f = some r) (hNil : r.flatten = []) {a : α} (ha : a ∈ l) : f a = some [] := by
  rw [mapM_eq_some_iff] at h
  induction h with
  | nil => cases ha
  | @cons a' d l r hd _ ih =>
    rw [flatten_cons, append_eq_nil_iff] at hNil
    rcases mem_cons.mp ha with rfl | hRest
    · rw [hd, hNil.1]
    · exact ih hNil.2 hRest

namespace Store

variable {g : Store} {n : NodeId}

theorem verifyDiags_of_accepted (hAcc : g.Accepted) :
    g.image.verifyDiags (fun n => !(g.usesOf n).isEmpty) = some [] := by
  unfold Accepted Store.verify Image.verify at hAcc
  obtain ⟨diags, hDiags, hEq⟩ := Option.bind_eq_some_iff.mp hAcc
  have hOk : diags.isEmpty = true := congrArg VerifyResult.ok (Option.some.inj hEq)
  rw [hDiags, isEmpty_iff.mp hOk]

section

variable (hAcc : g.Accepted) (hn : n < g.nodes.length)
include hAcc hn

/-- The pass over the nodes and the pass over the frame states find nothing. -/
theorem passes_of_accepted :
    g.image.checkNode (fun n => !(g.usesOf n).isEmpty) n = some [] ∧
      g.image.checkFrameState n = [] := by
  have hDiags := verifyDiags_of_accepted hAcc
  unfold Image.verifyDiags at hDiags
  obtain ⟨nodes, hNodes, hDiags⟩ := Option.bind_eq_some_iff.mp hDiags
  obtain ⟨vectors, -, hDiags⟩ := Option.bind_eq_some_iff.mp hDiags
  have hAll := Option.some.inj hDiags
  simp only [append_eq_nil_iff] at hAll
  have hRange : n ∈ range g.image.nodeCount := by
    rw [mem_range, Image.nodeCount, length_image_nodes]
    exact hn
  exact ⟨mapM_flatten_nil hNodes hAll.1.1.1.1.1.1 hRange,
    flatMap_eq_nil_iff.mp hAll.1.1.1.2 n hRange⟩

/-- The checks of the first pass that say nothing about an accepted node. -/
theorem checks_of_accepted :
    g.image.checkInputs n = [] ∧ g.image.checkSignature n = [] ∧ g.image.checkRoles n = [] ∧
      g.image.checkProjectionParent n = [] ∧ g.image.checkMergeShapes n = [] := by
  have h := (passes_of_accepted hAcc hn).1
  unfold Image.checkNode at h
  obtain ⟨types, -, h⟩ := Option.bind_eq_some_iff.mp h
  have hAll := Option.some.inj h
  simp only [append_eq_nil_iff] at hAll
  exact ⟨hAll.1.1.1.1.1.1.1.2, hAll.1.1.1.1.1.1.2, hAll.1.1.1.1.1.2, hAll.1.1.1.2, hAll.1.1.2⟩

end

theorem kind_image (hn : n < g.nodes.length) : (g.image.node n).kind = (g.node n).kind := by
  rw [node_image g hn]
  rfl

theorem inputs_image (hn : n < g.nodes.length) : (g.image.node n).inputs = g.inputs n := by
  rw [node_image g hn]
  rfl

variable (hAcc : g.Accepted) (hn : n < g.nodes.length)
include hAcc hn

theorem input_of_accepted {slot : Nat} {a : NodeId} (ha : (g.inputs n)[slot]? = some a) :
    a < g.nodes.length ∧ (g.node a).isDead = false ∧ g.image.validId a = true := by
  have h := (checks_of_accepted hAcc hn).1
  rw [Image.checkInputs, inputs_image hn, flatMap_eq_nil_iff] at h
  have hMem : (a, slot) ∈ (g.inputs n).zipIdx := mk_mem_zipIdx_iff_getElem?.mpr ha
  have hHere := h (a, slot) hMem
  dsimp only at hHere
  split at hHere
  · cases hHere
  rename_i hValid
  rw [Bool.not_eq_true', Bool.not_eq_false] at hValid
  have hLt : a < g.nodes.length := by
    rw [Image.validId, Bool.and_eq_true, decide_eq_true_eq, Image.nodeCount,
      length_image_nodes] at hValid
    exact hValid.2
  split at hHere
  · cases hHere
  split at hHere
  · cases hHere
  · rename_i hDead
    refine ⟨hLt, ?_, hValid⟩
    rw [Bool.not_eq_true, Image.isDead, node_image g hLt] at hDead
    exact hDead

theorem arity_of_accepted : (info (g.node n).kind).roles.length ≤ (g.inputs n).length := by
  have h := (checks_of_accepted hAcc hn).2.1
  rw [Image.checkSignature, inputs_image hn, kind_image hn] at h
  simp only [append_eq_nil_iff] at h
  have hMin : ¬ (g.inputs n).length <
      (info (g.node n).kind).roles.length + if (info (g.node n).kind).hasFrameState then 1 else 0 := by
    intro hShort
    have hDiag := h.1.1
    rw [if_pos hShort] at hDiag
    cases hDiag
  exact Nat.le_trans (Nat.le_add_right _ _) (Nat.le_of_not_lt hMin)

theorem vobj_of_accepted
    (hDead : (g.node n).isDead = false) (hKind : (g.node n).kind = .frameState) {v : NodeId}
    (hv : v ∈ g.frameStateVobjs (g.node n).payload.toNat) :
    v < g.nodes.length ∧ (g.node v).isDead = false ∧ (g.node v).kind = .virtualObjectState := by
  have h := (passes_of_accepted hAcc hn).2
  have hThis : ¬((g.image.node n).kind ≠ .frameState ∨ g.image.isDead n = true) := by
    rw [Image.isDead, node_image g hn]
    show ¬((g.node n).kind ≠ .frameState ∨ (g.node n).isDead = true)
    rw [hDead, hKind]
    simp
  have hPayload : (g.image.node n).payload = (g.node n).payload := by
    rw [node_image g hn]
    rfl
  unfold Image.checkFrameState at h
  dsimp only at h
  rw [if_neg hThis, hPayload] at h
  split at h
  · cases h
  rename_i d hd
  have hVobjs : d.vobjs = g.frameStateVobjs (g.node n).payload.toNat := by
    simp only [Store.image, getElem?_map, Option.map_eq_some_iff] at hd
    obtain ⟨id, hId, rfl⟩ := hd
    obtain ⟨hLt, hEq⟩ := List.getElem?_eq_some_iff.mp hId
    rw [getElem_range] at hEq
    rw [← hEq]
    rfl
  rw [append_eq_nil_iff, flatMap_eq_nil_iff] at h
  have hHere := h.2 v (hVobjs ▸ hv)
  split at hHere
  · cases hHere
  rename_i hValid
  split at hHere
  · cases hHere
  rename_i hVirtual
  split at hHere
  · cases hHere
  rename_i hAlive
  rw [Bool.not_eq_true', Bool.not_eq_false, Image.validId, Bool.and_eq_true, decide_eq_true_eq,
    Image.nodeCount, length_image_nodes] at hValid
  rw [not_not, node_image g hValid.2] at hVirtual
  rw [Bool.not_eq_true, Image.isDead, node_image g hValid.2] at hAlive
  exact ⟨hValid.2, hAlive, hVirtual⟩

end Store

end B2Compiler.Ir
