import B2Compiler.Ir.SerializeExact
import B2Compiler.Ir.StoreUses

/-!
# What replay rebuilds

Replaying an image into a fresh graph succeeds exactly when the first record is the
start node and the log names records.  The graph it gives is then a pure function of
the image, `replayStore`.
-/

namespace B2Compiler.Ir

open Lib List Nat Store NodeImage

/-! ## The pure replay -/

/-- The record of a node before its edges: node 0 keeps the payloads of the start node
that is already there. -/
def blankRecord (i : Nat) (nd : NodeImage) : NodeRec where
  kind := nd.kind
  flags := nd.flags
  payload := if i = 0 then 0 else nd.payload
  payload2 := if i = 0 then 0 else nd.payload2
  constValue := nd.constValue
  specMeta := nd.specMeta
  epoch := nd.epoch

/-- The graph after the first pass over the nodes. -/
def skeleton (nodes : List NodeImage) : Store where
  nodes := nodes.mapIdx blankRecord
  edgePool := []
  uses := replicate nodes.length []

def replayedNodes (nodes : List NodeImage) : Store :=
  match nodes with
  | [] => fresh
  | _ :: _ => skeleton nodes

def addFrame (g : Store) (d : FrameImage) : Store :=
  (g.addFrameStateDesc d.method d.pc d.caller d.vobjs).1

/-- The graph of an image. -/
def replayStore (im : Image) : Store :=
  let g := replayEdges (replayedNodes im.nodes) (im.nodes.map inputs)
  let g := im.frameStates.foldl addFrame g
  let g := { g with specMetas := g.specMetas ++ im.specMetas }
  let g := { g with deps := g.deps ++ im.deps }
  im.replacements.foldl Store.replayReplacement g

/-- The first record, if there is one, is the start node. -/
def Image.StartFirst (im : Image) : Prop := ∀ nd, im.nodes.head? = some nd → nd.kind = .start

/-- The log names records. -/
def Image.LogInRange (im : Image) : Prop :=
  ∀ r ∈ im.replacements, r.oldNode < im.nodes.length ∧ r.newNode < im.nodes.length

theorem modify_last {α : Type} (l : List α) (x : α) (f : α → α) :
    (l ++ [x]).modify l.length f = l ++ [f x] := by
  induction l with
  | nil => rfl
  | cons y l ih => simp [ih]

theorem actAll_replayNode (pre rest : List NodeImage) (pending : List (List NodeId))
    (hPre : pre ≠ []) :
    actAll replayNode pre.length rest (skeleton pre, pending) =
      .ok (skeleton (pre ++ rest), pending ++ rest.map NodeImage.inputs) := by
  induction rest generalizing pre pending with
  | nil => simp [actAll]
  | cons nd rest ih =>
    have hLen : pre.length ≠ 0 := by simpa using hPre
    have hStep : replayNode pre.length nd (skeleton pre, pending) =
        .ok (skeleton (pre ++ [nd]), pending ++ [nd.inputs]) := by
      have hNodes : (skeleton pre).nodes.length = pre.length := by simp [skeleton]
      simp only [replayNode, if_neg hLen, make, makeRaw, hNodes, ne_eq, not_true_eq_false, if_false]
      have hModify := modify_last (pre.mapIdx blankRecord)
        { kind := nd.kind, payload := nd.payload, payload2 := nd.payload2 }
        (fun r => { r with
          flags := nd.flags, constValue := nd.constValue, specMeta := nd.specMeta
          epoch := nd.epoch, reserved := 0 })
      rw [length_mapIdx] at hModify
      simpa [patchNode, skeleton, mapIdx_append, blankRecord, hLen, replicate_succ'] using hModify
    have hIh := ih (pre ++ [nd]) (pending ++ [nd.inputs]) (by simp)
    rw [actAll, hStep, ok_bind]
    simp only [length_append, length_singleton, append_assoc, singleton_append, map_cons] at hIh ⊢
    exact hIh

theorem actAll_replayNode_fresh (nodes : List NodeImage) (s : Store × List (List NodeId)) :
    actAll replayNode 0 nodes (fresh, []) = .ok s ↔
      (∀ nd, nodes.head? = some nd → nd.kind = .start) ∧
        s = (replayedNodes nodes, nodes.map NodeImage.inputs) := by
  cases nodes with
  | nil =>
    constructor
    · intro h
      injection h with h
      exact ⟨by simp, h.symm⟩
    · rintro ⟨-, rfl⟩
      rfl
  | cons nd rest =>
    by_cases hStart : nd.kind = .start
    · have hStep : replayNode 0 nd (fresh, []) = .ok (skeleton [nd], [nd.inputs]) := by
        simp [replayNode, hStart, patchNode, skeleton, blankRecord, fresh, makeRaw]
      have hRest := actAll_replayNode [nd] rest [nd.inputs] (by simp)
      have hAll : actAll replayNode 0 (nd :: rest) (fresh, []) =
          .ok (skeleton (nd :: rest), (nd :: rest).map inputs) := by
        rw [actAll, hStep, ok_bind]
        exact hRest
      rw [hAll]
      constructor
      · intro h
        injection h with h
        exact ⟨by simpa using hStart, h.symm⟩
      · rintro ⟨-, rfl⟩
        rfl
    · have hStep : actAll replayNode 0 (nd :: rest) (fresh, []) =
          .error "node 0 must be Start (corrupt artifact)" := by
        simp only [actAll, replayNode, if_true, ne_eq, hStart, not_false_eq_true]
        rfl
      rw [hStep]
      constructor
      · intro h
        cases h
      · rintro ⟨h, -⟩
        exact absurd (h nd rfl) hStart

theorem actAll_replayFrameState (frames : List FrameImage) (g : Store) :
    actAll replayFrameState g.fsDesc.length frames g = .ok (frames.foldl addFrame g) := by
  induction frames generalizing g with
  | nil => rfl
  | cons d frames ih =>
    have hStep : replayFrameState g.fsDesc.length d g = .ok (addFrame g d) := by
      simp [replayFrameState, addFrameStateDesc, addFrame]
    have hLen : g.fsDesc.length + 1 = (addFrame g d).fsDesc.length := by
      simp [addFrame, addFrameStateDesc]
    rw [actAll, hStep, ok_bind, hLen, ih, foldl_cons]

theorem actAll_replaySpecMeta (metas : List SpecMeta) (g : Store) :
    actAll replaySpecMeta g.specMetas.length metas g =
      .ok { g with specMetas := g.specMetas ++ metas } := by
  induction metas generalizing g with
  | nil => simp [actAll]
  | cons sm metas ih =>
    have hStep : replaySpecMeta g.specMetas.length sm g =
        .ok { g with specMetas := g.specMetas ++ [sm] } := by
      simp [replaySpecMeta, addSpecMeta]
    have hIh := ih { g with specMetas := g.specMetas ++ [sm] }
    simp only [length_append, length_singleton, append_assoc, singleton_append] at hIh
    rw [actAll, hStep, ok_bind, hIh]

theorem actAll_replayDependency (deps : List Dependency) (g : Store) :
    actAll replayDependency g.deps.length deps g = .ok { g with deps := g.deps ++ deps } := by
  induction deps generalizing g with
  | nil => simp [actAll]
  | cons d deps ih =>
    have hStep : replayDependency g.deps.length d g = .ok { g with deps := g.deps ++ [d] } := by
      simp [replayDependency, addDependency]
    have hIh := ih { g with deps := g.deps ++ [d] }
    simp only [length_append, length_singleton, append_assoc, singleton_append] at hIh
    rw [actAll, hStep, ok_bind, hIh]

theorem actAll_replayReplacement (n i : Nat) (log : List Replacement) (g g' : Store) :
    actAll (replayReplacement n) i log g = .ok g' ↔ (∀ r ∈ log, r.oldNode < n ∧ r.newNode < n) ∧
        g' = log.foldl Store.replayReplacement g := by
  induction log generalizing i g with
  | nil =>
    constructor
    · intro h
      injection h with h
      exact ⟨by simp, h.symm⟩
    · rintro ⟨-, rfl⟩
      rfl
  | cons r log ih =>
    by_cases hRange : n ≤ r.oldNode ∨ n ≤ r.newNode
    · have hStep : actAll (replayReplacement n) i (r :: log) g =
          .error "replacement entry node id out of range" := by
        rw [actAll, replayReplacement, if_pos hRange]
        rfl
      rw [hStep]
      constructor
      · intro h
        cases h
      · rintro ⟨h, -⟩
        have hr := h r mem_cons_self
        rcases hRange with hOld | hNew
        · exact absurd hr.1 (not_lt.mpr hOld)
        · exact absurd hr.2 (not_lt.mpr hNew)
    · have hr : r.oldNode < n ∧ r.newNode < n :=
        ⟨Nat.lt_of_not_le fun h => hRange (Or.inl h), Nat.lt_of_not_le fun h => hRange (Or.inr h)⟩
      rw [actAll, replayReplacement, if_neg hRange, ok_bind, ih, foldl_cons]
      simp [hr]

/-! ## Adding edges touches nothing else -/

/-- Same records apart from the slices, same tables, same epoch. -/
structure SameTables (h g : Store) : Prop where
  length : h.nodes.length = g.nodes.length
  tags : ∀ n, (h.node n).image [] = (g.node n).image []
  fsDesc : h.fsDesc = g.fsDesc
  fsVobjs : h.fsVobjs = g.fsVobjs
  specMetas : h.specMetas = g.specMetas
  deps : h.deps = g.deps
  replacements : h.replacements = g.replacements
  epoch : h.epoch = g.epoch

theorem SameTables.refl (g : Store) : SameTables g g :=
  ⟨rfl, fun _ => rfl, rfl, rfl, rfl, rfl, rfl, rfl⟩

theorem SameTables.trans {f g h : Store} (hhg : SameTables h g) (hgf : SameTables g f) :
    SameTables h f :=
  ⟨hhg.length.trans hgf.length, fun n => (hhg.tags n).trans (hgf.tags n),
    hhg.fsDesc.trans hgf.fsDesc, hhg.fsVobjs.trans hgf.fsVobjs,
    hhg.specMetas.trans hgf.specMetas, hhg.deps.trans hgf.deps,
    hhg.replacements.trans hgf.replacements, hhg.epoch.trans hgf.epoch⟩

theorem sameTables_appendInput (g : Store) (n v : NodeId) : SameTables (g.appendInput n v) g := by
  have hLen := appendInput_length (g := g) n v
  have hTags : ∀ m, ((g.appendInput n v).node m).image [] = (g.node m).image [] := by
    intro m
    rw [appendInput_node]
    by_cases hm : m = n ∧ n < g.nodes.length
    · rw [if_pos hm, hm.1]
      rfl
    · rw [if_neg hm]
  refine ⟨hLen, hTags, ?_, ?_, ?_, ?_, ?_, ?_⟩ <;>
    · simp only [appendInput]
      split_ifs <;> rfl

/-- What holds of a graph and survives every added edge holds after the second pass. -/
theorem foldl_appendInput {P : Store → Prop} (hStep : ∀ h n v, P h → P (h.appendInput n v))
    (g : Store) (n : NodeId) (vs : List NodeId) (hStart : P g) : P (appendInputs g n vs) := by
  induction vs generalizing g with
  | nil => exact hStart
  | cons v vs ih => exact ih (g.appendInput n v) (hStep g n v hStart)

theorem sameTables_appendInputs (g : Store) (n : NodeId) (vs : List NodeId) :
    SameTables (appendInputs g n vs) g :=
  foldl_appendInput (P := fun h => SameTables h g)
    (fun h n v hh => (sameTables_appendInput h n v).trans hh) g n vs (SameTables.refl g)

theorem appendInputs_inputs {g : Store} (hOk : g.Ok) {n : NodeId} (hn : n < g.nodes.length)
    (vs : List NodeId) (hLen : (g.inputs n).length + vs.length < 65536) (m : NodeId) :
    (appendInputs g n vs).inputs m = if m = n then g.inputs n ++ vs else g.inputs m := by
  induction vs generalizing g with
  | nil =>
    by_cases hm : m = n
    · subst hm
      simp [appendInputs]
    · simp [appendInputs, hm]
  | cons v vs ih =>
    rw [length_cons] at hLen
    have hNum : (g.node n).numInputs + 1 < 65536 := by
      have hEq : (g.inputs n).length = (g.node n).numInputs := length_inputs hOk n
      omega
    have hStep : ∀ k, (g.appendInput n v).inputs k =
        if k = n then g.inputs n ++ [v] else g.inputs k := by
      intro k
      have hEq : (g.inputs n).length = (g.node n).numInputs := length_inputs hOk n
      rw [appendInput_inputs n v hOk hn, mod_eq_of_lt hNum, take_of_length_le]
      exact le_of_eq (by rw [length_append, hEq, length_singleton])
    have hn' : n < (g.appendInput n v).nodes.length := by
      rw [appendInput_length]
      exact hn
    have hLen' : ((g.appendInput n v).inputs n).length + vs.length < 65536 := by
      rw [hStep, if_pos rfl, length_append, length_singleton]
      omega
    have hIh := ih (hOk.appendInput n v) hn' hLen'
    rw [hStep, hStep, if_pos rfl] at hIh
    rw [appendInputs, foldl_cons]
    rw [appendInputs] at hIh
    rw [hIh]
    by_cases hm : m = n
    · simp [hm]
    · simp [hm]

section Edges

variable (g : Store) (pending : List (List NodeId))

theorem sameTables_foldl_edges (k : Nat) :
    SameTables ((pending.zipIdx k).foldl (fun h p => appendInputs h p.2 p.1) g) g := by
  induction pending generalizing g k with
  | nil => exact SameTables.refl g
  | cons vs pending ih =>
    rw [zipIdx_cons, foldl_cons]
    exact (ih (appendInputs g k vs) (k + 1)).trans (sameTables_appendInputs g k vs)

theorem sameTables_replayEdges : SameTables (replayEdges g pending) g :=
  sameTables_foldl_edges g pending 0

theorem inputs_foldl_edges {g : Store} (hOk : g.Ok) (k : Nat)
    (hLen : k + pending.length ≤ g.nodes.length) (hEmpty : ∀ m, k ≤ m → g.inputs m = [])
    (hShort : ∀ vs ∈ pending, vs.length < 65536) (m : Nat) :
    ((pending.zipIdx k).foldl (fun h p => appendInputs h p.2 p.1) g).inputs m =
      if k ≤ m then pending.getD (m - k) [] else g.inputs m := by
  induction pending generalizing g k with
  | nil =>
    by_cases hm : k ≤ m
    · simp [hm, hEmpty m hm]
    · simp [hm]
  | cons vs pending ih =>
    rw [length_cons] at hLen
    have hk : k < g.nodes.length := by omega
    have hVs : vs.length < 65536 := hShort vs mem_cons_self
    have hStep : ∀ j, (appendInputs g k vs).inputs j = if j = k then vs else g.inputs j := by
      intro j
      have hEmptyK := hEmpty k (le_refl k)
      rw [appendInputs_inputs hOk hk vs (by rw [hEmptyK]; simpa using hVs), hEmptyK, nil_append]
    have hOk' : (appendInputs g k vs).Ok :=
      foldl_appendInput (fun h n v hh => hh.appendInput n v) g k vs hOk
    have hLen' : k + 1 + pending.length ≤ (appendInputs g k vs).nodes.length := by
      rw [(sameTables_appendInputs g k vs).length]
      omega
    have hEmpty' : ∀ j, k + 1 ≤ j → (appendInputs g k vs).inputs j = [] := by
      intro j hj
      have hNe : j ≠ k := ne_of_gt hj
      rw [hStep, if_neg hNe]
      exact hEmpty j (le_of_succ_le hj)
    have hIh := ih hOk' (k + 1) hLen' hEmpty' (fun ws hws => hShort ws (mem_cons_of_mem _ hws))
    rw [zipIdx_cons, foldl_cons, hIh]
    rcases lt_trichotomy m k with hLt | hEq | hGt
    · have h1 : ¬ k + 1 ≤ m := by omega
      have h2 : ¬ k ≤ m := by omega
      rw [if_neg h1, if_neg h2, hStep, if_neg (Nat.ne_of_lt hLt)]
    · have h1 : ¬ k + 1 ≤ m := by omega
      have h2 : k ≤ m := by omega
      rw [if_neg h1, if_pos h2, hStep, if_pos hEq, hEq, Nat.sub_self]
      rfl
    · have h1 : k + 1 ≤ m := hGt
      have h2 : k ≤ m := by omega
      have h3 : m - k = (m - (k + 1)) + 1 := by omega
      rw [if_pos h1, if_pos h2, h3]
      rfl

end Edges

/-! ## Adding descriptors touches nothing else -/

theorem foldl_addFrame_other (g : Store) (frames : List FrameImage) :
    (frames.foldl addFrame g).nodes = g.nodes ∧ (frames.foldl addFrame g).edgePool = g.edgePool ∧
      (frames.foldl addFrame g).uses = g.uses ∧
      (frames.foldl addFrame g).specMetas = g.specMetas ∧
      (frames.foldl addFrame g).deps = g.deps ∧
      (frames.foldl addFrame g).replacements = g.replacements ∧
      (frames.foldl addFrame g).epoch = g.epoch := by
  induction frames generalizing g with
  | nil => exact ⟨rfl, rfl, rfl, rfl, rfl, rfl, rfl⟩
  | cons d frames ih => exact ih (addFrame g d)

/-- Every descriptor's slice lies inside the table. -/
def FrameSlices (g : Store) : Prop :=
  ∀ d ∈ g.fsDesc, d.vobjOffset + d.vobjCount ≤ g.fsVobjs.length

theorem frameSlices_addFrame {g : Store} (hFs : FrameSlices g) (d : FrameImage) :
    FrameSlices (addFrame g d) := by
  intro e he
  simp only [addFrame, addFrameStateDesc, mem_append, mem_singleton] at he
  simp only [addFrame, addFrameStateDesc, length_append]
  rcases he with he | rfl
  · exact le_trans (hFs e he) (le_add_right _ _)
  · exact le_refl _

theorem frameImage_addFrame {g : Store} (hFs : FrameSlices g) (d : FrameImage) (i : Nat)
    (hi : i < g.fsDesc.length) : (addFrame g d).frameImage i = g.frameImage i := by
  have hDesc : (addFrame g d).fsDesc[i]? = g.fsDesc[i]? := getElem?_append_left hi
  have hMem : g.fsDesc[i]? = some (g.fsDesc.getD i {}) := by
    rw [getD_eq_getElem?_getD, getElem?_eq_getElem hi]
    rfl
  have hSlice := hFs _ (mem_of_getElem? hMem)
  have hSlice' : (g.fsDesc.getD i {}).vobjOffset + (g.fsDesc.getD i {}).vobjCount ≤
      (addFrame g d).fsVobjs.length := by
    simp only [addFrame, addFrameStateDesc, length_append]
    omega
  have hGetD : (addFrame g d).fsDesc.getD i {} = g.fsDesc.getD i {} := by
    rw [getD_eq_getElem?_getD, hDesc, getD_eq_getElem?_getD]
  simp only [frameImage, frameStateVobjs, hDesc, hGetD, hMem, if_pos hSlice, if_pos hSlice']
  congr 1
  simp only [addFrame, addFrameStateDesc]
  rw [drop_append_of_le_length (by omega), take_append_of_le_length]
  rw [length_drop]
  omega

theorem frameImage_addFrame_last {g : Store} (d : FrameImage) :
    (addFrame g d).frameImage g.fsDesc.length = d := by
  simp [frameImage, frameStateVobjs, addFrame, addFrameStateDesc]

theorem image_foldl_addFrame (g : Store) (hFs : FrameSlices g) (frames : List FrameImage) :
    (frames.foldl addFrame g).image.frameStates = g.image.frameStates ++ frames := by
  induction frames generalizing g with
  | nil => simp
  | cons d frames ih =>
    have hStep : (addFrame g d).image.frameStates = g.image.frameStates ++ [d] := by
      have hLen : (addFrame g d).fsDesc.length = g.fsDesc.length + 1 := by
        simp [addFrame, addFrameStateDesc]
      simp only [image, hLen, range_succ, map_append, map_singleton, frameImage_addFrame_last]
      congr 1
      apply map_congr_left
      intro i hi
      exact frameImage_addFrame hFs d i (mem_range.mp hi)
    rw [foldl_cons, ih (addFrame g d) (frameSlices_addFrame hFs d), hStep,
      append_assoc, singleton_append]

theorem replayedNodes_tables (nodes : List NodeImage) :
    (replayedNodes nodes).fsDesc = [] ∧ (replayedNodes nodes).fsVobjs = [] ∧
      (replayedNodes nodes).specMetas = [] ∧ (replayedNodes nodes).deps = [] ∧
      (replayedNodes nodes).replacements = [] ∧ (replayedNodes nodes).epoch = 0 := by
  unfold replayedNodes
  split
  all_goals exact ⟨rfl, rfl, rfl, rfl, rfl, rfl⟩

/-- Replay succeeds exactly on images whose first record is the start node and whose log
names records. -/
theorem replay_eq_ok_iff (im : Image) (g' : Store) :
    replay im fresh = .ok g' ↔ im.StartFirst ∧ im.LogInRange ∧ g' = replayStore im := by
  obtain ⟨hDesc, -, hMetas, hDeps, -, -⟩ := replayedNodes_tables im.nodes
  have hTables := sameTables_replayEdges (replayedNodes im.nodes) (im.nodes.map inputs)
  generalize hEdges : replayEdges (replayedNodes im.nodes) (im.nodes.map inputs) = g₁ at hTables
  have hFrames := actAll_replayFrameState im.frameStates g₁
  rw [hTables.fsDesc, hDesc, length_nil] at hFrames
  obtain ⟨-, -, -, hFrameMetas, hFrameDeps, -, -⟩ := foldl_addFrame_other g₁ im.frameStates
  have hStore : replayStore im = im.replacements.foldl Store.replayReplacement
      { im.frameStates.foldl addFrame g₁ with specMetas := im.specMetas, deps := im.deps } := by
    simp only [replayStore, hEdges, hFrameMetas, hFrameDeps, hTables.specMetas, hTables.deps,
      hMetas, hDeps, nil_append]
  generalize im.frameStates.foldl addFrame g₁ = g₂ at hFrames hFrameMetas hFrameDeps hStore
  have hSpecs := actAll_replaySpecMeta im.specMetas g₂
  rw [hFrameMetas, hTables.specMetas, hMetas, length_nil, nil_append] at hSpecs
  have hDepsNil : g₂.deps = [] := by rw [hFrameDeps, hTables.deps, hDeps]
  have hDepsAct : actAll replayDependency 0 im.deps { g₂ with specMetas := im.specMetas } =
      .ok { g₂ with specMetas := im.specMetas, deps := im.deps } := by
    simpa [hDepsNil] using actAll_replayDependency im.deps { g₂ with specMetas := im.specMetas }
  constructor
  · intro h
    obtain ⟨⟨g, pending⟩, hNodes, h⟩ := bind_eq_ok_iff.mp h
    obtain ⟨hStart, hPair⟩ := (actAll_replayNode_fresh im.nodes _).mp hNodes
    injection hPair with hg hPending
    subst hg hPending
    simp only [hEdges, hFrames, hSpecs, hDepsAct, ok_bind] at h
    obtain ⟨hLog, hg'⟩ := (actAll_replayReplacement ..).mp h
    exact ⟨hStart, hLog, by rw [hg', hStore]⟩
  · rintro ⟨hStart, hLog, rfl⟩
    have hNodes := (actAll_replayNode_fresh im.nodes _).mpr ⟨hStart, rfl⟩
    simp only [replay, hNodes, ok_bind, hEdges, hFrames, hSpecs, hDepsAct]
    exact (actAll_replayReplacement ..).mpr ⟨hLog, hStore⟩

end B2Compiler.Ir
