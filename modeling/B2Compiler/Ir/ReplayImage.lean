import B2Compiler.Ir.Replay

/-!
# The image of a replayed graph

The graph replay gives back shows the image it was given, with two exceptions: the
start node's payloads are cleared, and every logged node carries the tags of its last
log entry.  Its slices are apart, and its use lists are complete when all inputs name
records.
-/

namespace B2Compiler.Ir

open Lib List

variable {h g : Store}

theorem image_nodes_congr (hNodes : h.nodes = g.nodes) (hPool : h.edgePool = g.edgePool) :
    h.image.nodes = g.image.nodes := by
  have hEq : h.nodeImage = g.nodeImage := by
    funext n
    simp only [Store.nodeImage, Store.inputs, Store.node, hNodes, hPool]
  simp only [Store.image, hNodes, hEq]

theorem image_frameStates_congr (hDesc : h.fsDesc = g.fsDesc) (hVobjs : h.fsVobjs = g.fsVobjs) :
    h.image.frameStates = g.image.frameStates := by
  have hEq : h.frameImage = g.frameImage := by
    funext i
    simp only [Store.frameImage, Store.frameStateVobjs, hDesc, hVobjs]
  simp only [Store.image, hDesc, hEq]

/-- Changing a record outside its slice changes the image there. -/
theorem image_nodes_modify {n : NodeId} {f : NodeRec → NodeRec} {F : NodeImage → NodeImage}
    (hPool : h.edgePool = g.edgePool) (hUses : h.uses = g.uses)
    (hNodes : h.nodes = g.nodes.modify n f) (hOffset : ∀ nd, (f nd).edgeOffset = nd.edgeOffset)
    (hNum : ∀ nd, (f nd).numInputs = nd.numInputs)
    (hF : ∀ nd ins, (f nd).image ins = F (nd.image ins)) :
    h.image.nodes = g.image.nodes.modify n F := by
  have hSame := Store.SameEdges.modify hPool hUses hNodes hOffset hNum
  apply ext_getElem?
  intro m
  rw [getElem?_image_nodes, getElem?_modify, getElem?_image_nodes, hSame.length]
  by_cases hm : m < g.nodes.length
  · rw [if_pos hm, if_pos hm]
    have hNode : h.node m = if m = n ∧ n < g.nodes.length then f (g.node n) else g.node m := by
      rw [Store.node, hNodes, getD_modify]
      rfl
    rw [Store.nodeImage, hSame.inputs, hNode]
    by_cases hmn : n = m
    · subst hmn
      simp [hm, hF, Store.nodeImage]
    · simp [hmn, Ne.symm hmn, Store.nodeImage]
  · rw [if_neg hm, if_neg hm]
    rfl

/-! ## The image of a replayed graph -/

/-- What the first record keeps: the start node's payloads are not restored, and a file
without records leaves the start node of the fresh graph. -/
def clearStart : List NodeImage → List NodeImage
  | [] => [{}]
  | nd :: rest => { nd with payload := 0, payload2 := 0 } :: rest

/-- The tags a log entry gives to the node it replaced. -/
def NodeImage.retag (e : BitVec 32) (nd : NodeImage) : NodeImage :=
  { nd with flags := (nd.flags.set .replaced).set .dead, epoch := e }

def retagNodes (nodes : List NodeImage) (r : Replacement) : List NodeImage :=
  nodes.modify r.oldNode (NodeImage.retag r.epoch)

/-- The image replay gives back. -/
def Image.rebuilt (im : Image) : Image :=
  { im with nodes := im.replacements.foldl retagNodes (clearStart im.nodes) }

section

variable (nodes : List NodeImage)
include nodes

theorem ok_replayedNodes : (replayedNodes nodes).Ok := by
  cases nodes with
  | nil => exact Store.ok_fresh
  | cons nd rest =>
    have hNode : ∀ n, ((skeleton (nd :: rest)).node n).edgeOffset = 0 ∧
        ((skeleton (nd :: rest)).node n).numInputs = 0 := by
      intro n
      simp only [Store.node, skeleton, getD_eq_getElem?_getD, getElem?_mapIdx]
      cases (nd :: rest)[n]? with
      | none | some nd' => exact ⟨rfl, rfl⟩
    constructor
    · simp [replayedNodes, skeleton]
    · intro n
      exact Nat.le_of_eq (by rw [replayedNodes, (hNode n).1, (hNode n).2]; rfl)
    · intro n m _
      left
      rw [replayedNodes, (hNode n).1, (hNode n).2, (hNode m).1]

theorem inputs_replayedNodes (n : NodeId) : (replayedNodes nodes).inputs n = [] := by
  have hPool : (replayedNodes nodes).edgePool = [] := by
    cases nodes <;> rfl
  simp [Store.inputs, hPool]

theorem length_replayedNodes : (replayedNodes nodes).nodes.length = (clearStart nodes).length := by
  cases nodes with
  | nil => rfl
  | cons nd rest => simp [replayedNodes, skeleton, clearStart]

theorem tags_replayedNodes (hFits : ∀ nd ∈ nodes, nd.Fits) (n : Nat)
    (nd : NodeImage) (hn : (clearStart nodes)[n]? = some nd) :
    ((replayedNodes nodes).node n).image [] = { nd with inputs := [] } := by
  cases nodes with
  | nil =>
    rcases n with _ | n
    · injection hn with hn
      subst hn
      rfl
    · cases hn
  | cons nd₀ rest =>
    have hReserved : ∀ nd ∈ nd₀ :: rest, nd.reserved = 0 := fun nd h => (hFits nd h).1
    rcases n with _ | n
    · injection hn with hn
      subst hn
      simp [replayedNodes, skeleton, Store.node, blankRecord, NodeRec.image,
        hReserved nd₀ mem_cons_self]
    · have hn' : rest[n]? = some nd := hn
      have hMem : nd ∈ nd₀ :: rest := mem_cons_of_mem _ (mem_of_getElem? hn')
      simp [replayedNodes, skeleton, Store.node, getD_eq_getElem?_getD,
        getElem?_mapIdx, hn', blankRecord, NodeRec.image, hReserved nd hMem]

theorem inputs_clearStart (n : Nat) (nd : NodeImage) (hn : (clearStart nodes)[n]? = some nd) :
    (nodes.map NodeImage.inputs).getD n [] = nd.inputs := by
  cases nodes with
  | nil =>
    rcases n with _ | n
    · injection hn with hn
      subst hn
      rfl
    · cases hn
  | cons nd₀ rest =>
    rcases n with _ | n
    · injection hn with hn
      subst hn
      rfl
    · have hn' : rest[n]? = some nd := hn
      simp [getD_eq_getElem?_getD, hn']

theorem image_replayEdges (hFits : ∀ nd ∈ nodes, nd.Fits) :
    (replayEdges (replayedNodes nodes) (nodes.map NodeImage.inputs)).image.nodes =
      clearStart nodes := by
  have hTables := sameTables_replayEdges (replayedNodes nodes) (nodes.map NodeImage.inputs)
  have hLength := length_replayedNodes nodes
  have hInputs : ∀ m, (replayEdges (replayedNodes nodes)
      (nodes.map NodeImage.inputs)).inputs m = (nodes.map NodeImage.inputs).getD m [] := by
    intro m
    have hRoom : 0 + (nodes.map NodeImage.inputs).length ≤ (replayedNodes nodes).nodes.length := by
      rw [hLength, length_map]
      cases nodes <;> simp [clearStart]
    have hShort : ∀ vs ∈ nodes.map NodeImage.inputs, vs.length < 65536 := by
      intro vs hvs
      obtain ⟨nd, hnd, rfl⟩ := mem_map.mp hvs
      exact (hFits nd hnd).2.1
    have hEdges := inputs_foldl_edges (nodes.map NodeImage.inputs) (ok_replayedNodes nodes) 0
      hRoom (fun m _ => inputs_replayedNodes nodes m) hShort m
    rw [if_pos (Nat.zero_le m), Nat.sub_zero] at hEdges
    exact hEdges
  apply ext_getElem?
  intro n
  rw [getElem?_image_nodes, hTables.length, hLength]
  by_cases hn : n < (clearStart nodes).length
  · have hGet : (clearStart nodes)[n]? = some (clearStart nodes)[n] := getElem?_eq_getElem hn
    rw [if_pos hn, hGet]
    have hTags := hTables.tags n
    rw [tags_replayedNodes nodes hFits n _ hGet] at hTags
    have hImage : ∀ (nd : NodeRec) (ins : List NodeId),
        nd.image ins = { nd.image [] with inputs := ins } := fun _ _ => rfl
    rw [Store.nodeImage, hImage, hTags, hInputs, inputs_clearStart nodes n _ hGet]
  · rw [if_neg hn, getElem?_eq_none (Nat.le_of_not_lt hn)]

end

theorem image_replayReplacement (g : Store) (r : Replacement) (hr : r.oldNode < g.nodes.length) :
    (g.replayReplacement r).image =
      { g.image with
        nodes := retagNodes g.image.nodes r
        replacements := g.image.replacements ++ [r] } := by
  have hNodes : (g.replayReplacement r).image.nodes = retagNodes g.image.nodes r := by
    refine image_nodes_modify (f := fun nd =>
        { nd with flags := (nd.flags.set .replaced).set .dead, epoch := r.epoch })
      ?_ ?_ ?_ (fun _ => rfl) (fun _ => rfl) (fun _ _ => rfl) <;>
      simp [Store.replayReplacement, hr]
  have hFrames : (g.replayReplacement r).image.frameStates = g.image.frameStates :=
    image_frameStates_congr (by simp [Store.replayReplacement, hr])
      (by simp [Store.replayReplacement, hr])
  have hRest : (g.replayReplacement r).image =
      ⟨(g.replayReplacement r).image.nodes, (g.replayReplacement r).image.frameStates,
        g.specMetas, g.deps, g.replacements ++ [r]⟩ := by
    simp [Store.replayReplacement, hr, Store.image]
  rw [hRest, hNodes, hFrames]
  rfl

theorem length_foldl_retagNodes (nodes : List NodeImage) (log : List Replacement) :
    (log.foldl retagNodes nodes).length = nodes.length := by
  induction log generalizing nodes with
  | nil => rfl
  | cons r log ih => rw [foldl_cons, ih, retagNodes, length_modify]

theorem image_foldl_replayReplacement (g : Store) (log : List Replacement)
    (hLog : ∀ r ∈ log, r.oldNode < g.nodes.length) :
    (log.foldl Store.replayReplacement g).image =
      { g.image with
        nodes := log.foldl retagNodes g.image.nodes
        replacements := g.image.replacements ++ log } := by
  induction log generalizing g with
  | nil => simp
  | cons r log ih =>
    have hr := hLog r mem_cons_self
    have hLen : (g.replayReplacement r).nodes.length = g.nodes.length := by
      simp [Store.replayReplacement, hr]
    rw [foldl_cons, ih (g.replayReplacement r) (fun s hs => by
      rw [hLen]
      exact hLog s (mem_cons_of_mem _ hs)), image_replayReplacement g r hr]
    simp

/-- The graph before the log is replayed. -/
def replayTables (im : Image) : Store :=
  let g := replayEdges (replayedNodes im.nodes) (im.nodes.map NodeImage.inputs)
  { im.frameStates.foldl addFrame g with specMetas := im.specMetas, deps := im.deps }

theorem replayStore_eq (im : Image) :
    replayStore im = im.replacements.foldl Store.replayReplacement (replayTables im) := by
  obtain ⟨-, -, hMetas, hDeps, -, -⟩ := replayedNodes_tables im.nodes
  have hTables := sameTables_replayEdges (replayedNodes im.nodes) (im.nodes.map NodeImage.inputs)
  obtain ⟨-, -, -, hFrameMetas, hFrameDeps, -, -⟩ := foldl_addFrame_other
    (replayEdges (replayedNodes im.nodes) (im.nodes.map NodeImage.inputs)) im.frameStates
  simp only [replayStore, replayTables, hFrameMetas, hFrameDeps, hTables.specMetas, hTables.deps,
    hMetas, hDeps, nil_append]

theorem replayTables_image (im : Image) (hFits : im.Fits) : (replayTables im).image =
      ⟨clearStart im.nodes, im.frameStates, im.specMetas, im.deps, []⟩ := by
  obtain ⟨hDesc, hVobjs, -, -, hLog, -⟩ := replayedNodes_tables im.nodes
  have hTables := sameTables_replayEdges (replayedNodes im.nodes) (im.nodes.map NodeImage.inputs)
  have hEdges := image_replayEdges im.nodes hFits.nodes.2
  generalize hg : replayEdges (replayedNodes im.nodes) (im.nodes.map NodeImage.inputs) = g
    at hTables hEdges
  obtain ⟨hNodes, hPool, -, -, -, hRepl, -⟩ := foldl_addFrame_other g im.frameStates
  have hSlices : FrameSlices g := by
    intro d hd
    rw [hTables.fsDesc, hDesc] at hd
    cases hd
  have hFrames := image_foldl_addFrame g hSlices im.frameStates
  have hNone : g.image.frameStates = [] := by
    simp [Store.image, hTables.fsDesc, hDesc]
  rw [hNone, nil_append] at hFrames
  have hImageNodes : (replayTables im).image.nodes = clearStart im.nodes := by
    rw [← hEdges]
    exact image_nodes_congr (by simp only [replayTables, hg]; exact hNodes)
      (by simp only [replayTables, hg]; exact hPool)
  have hImageFrames : (replayTables im).image.frameStates = im.frameStates := by
    rw [← hFrames]
    exact image_frameStates_congr (by simp only [replayTables, hg])
      (by simp only [replayTables, hg])
  have hRest : (replayTables im).image =
      ⟨(replayTables im).image.nodes, (replayTables im).image.frameStates, im.specMetas,
        im.deps, []⟩ := by
    simp only [replayTables, Store.image, hg, hRepl, hTables.replacements, hLog]
  rw [hRest, hImageNodes, hImageFrames]

theorem replayStore_image (im : Image) (hFits : im.Fits) (hLog : im.LogInRange) :
    (replayStore im).image = im.rebuilt := by
  have hImage := replayTables_image im hFits
  have hLen : (replayTables im).nodes.length = (clearStart im.nodes).length := by
    rw [← length_image_nodes, hImage]
  have hRange : ∀ r ∈ im.replacements, r.oldNode < (replayTables im).nodes.length := by
    intro r hr
    have hOld := (hLog r hr).1
    rw [hLen]
    cases hNodes : im.nodes with
    | nil =>
      rw [hNodes] at hOld
      exact absurd hOld (Nat.not_lt_zero _)
    | cons nd rest =>
      rw [hNodes] at hOld
      exact hOld
  rw [replayStore_eq, image_foldl_replayReplacement _ _ hRange, hImage]
  rfl

/-! ## Slices, uses and epoch of a replayed graph -/

theorem sameEdges_replayReplacement (g : Store) (r : Replacement) :
    Store.SameEdges (g.replayReplacement r) g := by
  by_cases hr : r.oldNode < g.nodes.length
  · refine Store.SameEdges.modify (n := r.oldNode) (f := fun nd =>
        { nd with flags := (nd.flags.set .replaced).set .dead, epoch := r.epoch })
      ?_ ?_ ?_ (fun _ => rfl) (fun _ => rfl) <;> simp [Store.replayReplacement, hr]
  · have hSame : g.replayReplacement r = g := by
      simp [Store.replayReplacement, hr]
    rw [hSame]
    exact Store.sameEdges_refl g

theorem sameEdges_foldl_replayReplacement (g : Store) (log : List Replacement) :
    Store.SameEdges (log.foldl Store.replayReplacement g) g := by
  induction log generalizing g with
  | nil => exact Store.sameEdges_refl g
  | cons r log ih =>
    have hTail := ih (g.replayReplacement r)
    have hHead := sameEdges_replayReplacement g r
    exact ⟨hTail.pool.trans hHead.pool, hTail.uses.trans hHead.uses,
      hTail.length.trans hHead.length, fun n => (hTail.offset n).trans (hHead.offset n),
      fun n => (hTail.num n).trans (hHead.num n)⟩

/-- The edges of a replayed graph are those of the second pass. -/
theorem sameEdges_replayStore (im : Image) : Store.SameEdges (replayStore im)
      (replayEdges (replayedNodes im.nodes) (im.nodes.map NodeImage.inputs)) := by
  have hLog := sameEdges_foldl_replayReplacement (replayTables im) im.replacements
  obtain ⟨hNodes, hPool, hUses, -, -, -, -⟩ := foldl_addFrame_other
    (replayEdges (replayedNodes im.nodes) (im.nodes.map NodeImage.inputs)) im.frameStates
  have hNode : ∀ n, (replayTables im).node n =
      (replayEdges (replayedNodes im.nodes) (im.nodes.map NodeImage.inputs)).node n := by
    intro n
    simp only [Store.node, replayTables, hNodes]
  rw [replayStore_eq]
  refine ⟨hLog.pool.trans hPool, hLog.uses.trans hUses, hLog.length.trans ?_, ?_, ?_⟩
  · exact congrArg length hNodes
  · intro n
    rw [hLog.offset, hNode]
  · intro n
    rw [hLog.num, hNode]

theorem useDef_appendInputs (hOk : g.Ok) (hUses : g.UseDef) {n : NodeId} (hn : n < g.nodes.length)
    (vs : List NodeId) (hVs : ∀ v ∈ vs, v < g.nodes.length)
    (hLen : (g.inputs n).length + vs.length < 65536) : (appendInputs g n vs).UseDef := by
  induction vs generalizing g with
  | nil => exact hUses
  | cons v vs ih =>
    rw [length_cons] at hLen
    have hEq : (g.inputs n).length = (g.node n).numInputs := Store.length_inputs hOk n
    have hNum : (g.node n).numInputs + 1 < 65536 := by omega
    have hLength : (g.appendInput n v).nodes.length = g.nodes.length :=
      Store.appendInput_length n v
    have hInputs : (g.appendInput n v).inputs n = g.inputs n ++ [v] := by
      have hOne := appendInputs_inputs hOk hn [v] (by
        rw [length_singleton]
        omega) n
      rw [if_pos rfl] at hOne
      exact hOne
    apply ih (hOk.appendInput n v) (hUses.appendInput hOk hn (hVs v mem_cons_self) hNum)
    · rw [hLength]
      exact hn
    · intro w hw
      rw [hLength]
      exact hVs w (mem_cons_of_mem _ hw)
    · rw [hInputs, length_append, length_singleton]
      omega

theorem useDef_foldl_edges (hOk : g.Ok) (hUses : g.UseDef) (pending : List (List NodeId)) (k : Nat)
    (hLen : k + pending.length ≤ g.nodes.length) (hEmpty : ∀ m, k ≤ m → g.inputs m = [])
    (hShort : ∀ vs ∈ pending, vs.length < 65536)
    (hClosed : ∀ vs ∈ pending, ∀ v ∈ vs, v < g.nodes.length) :
    ((pending.zipIdx k).foldl (fun h p => appendInputs h p.2 p.1) g).UseDef := by
  induction pending generalizing g k with
  | nil => exact hUses
  | cons vs pending ih =>
    rw [length_cons] at hLen
    have hk : k < g.nodes.length := by omega
    have hRoom : (g.inputs k).length + vs.length < 65536 := by
      rw [hEmpty k (Nat.le_refl k)]
      simpa using hShort vs mem_cons_self
    have hLength := (sameTables_appendInputs g k vs).length
    rw [zipIdx_cons, foldl_cons]
    apply ih (foldl_appendInput (fun h n v hh => hh.appendInput n v) g k vs hOk)
      (useDef_appendInputs hOk hUses hk vs (hClosed vs mem_cons_self) hRoom) (k + 1)
    · rw [hLength]
      omega
    · intro m hm
      rw [appendInputs_inputs hOk hk vs hRoom, if_neg (Nat.ne_of_gt hm)]
      exact hEmpty m (Nat.le_of_succ_le hm)
    · intro ws hws
      exact hShort ws (mem_cons_of_mem _ hws)
    · intro ws hws v hv
      rw [hLength]
      exact hClosed ws (mem_cons_of_mem _ hws) v hv

theorem useDef_replayedNodes (nodes : List NodeImage) : (replayedNodes nodes).UseDef := by
  cases nodes with
  | nil => exact Store.useDef_fresh
  | cons nd rest =>
    constructor
    · intro d u i
      have hUses : (replayedNodes (nd :: rest)).usesOf d = [] := by
        simp only [replayedNodes, skeleton, Store.usesOf, getD_eq_getElem?_getD, getElem?_replicate]
        split <;> rfl
      rw [hUses, inputs_replayedNodes]
      rfl
    · intro u i d hRead
      rw [inputs_replayedNodes] at hRead
      cases hRead

/-- When all inputs name records the use lists of the rebuilt graph are complete. -/
theorem useDef_replayStore (im : Image) (hFits : im.Fits)
    (hClosed : ∀ nd ∈ im.nodes, ∀ v ∈ nd.inputs, v < im.nodes.length) :
    (replayStore im).UseDef := by
  apply (sameEdges_replayStore im).useDef
  have hLength := length_replayedNodes im.nodes
  have hLe : im.nodes.length ≤ (clearStart im.nodes).length := by
    cases im.nodes <;> simp [clearStart]
  apply useDef_foldl_edges (ok_replayedNodes im.nodes) (useDef_replayedNodes im.nodes)
  · rw [hLength, length_map, Nat.zero_add]
    exact hLe
  · intro m _
    exact inputs_replayedNodes im.nodes m
  · intro vs hvs
    obtain ⟨nd, hnd, rfl⟩ := mem_map.mp hvs
    exact (hFits.nodes.2 nd hnd).2.1
  · intro vs hvs v hv
    obtain ⟨nd, hnd, rfl⟩ := mem_map.mp hvs
    rw [hLength]
    exact Nat.lt_of_lt_of_le (hClosed nd hnd v hv) hLe

/-- The epoch after a log: the largest epoch seen, starting from `e`. -/
def logEpoch (e : BitVec 32) (log : List Replacement) : BitVec 32 :=
  log.foldl (fun e r => if e < r.epoch then r.epoch else e) e

theorem epoch_foldl_replayReplacement (g : Store) (log : List Replacement)
    (hLog : ∀ r ∈ log, r.oldNode < g.nodes.length) :
    (log.foldl Store.replayReplacement g).epoch = logEpoch g.epoch log := by
  induction log generalizing g with
  | nil => rfl
  | cons r log ih =>
    have hr := hLog r mem_cons_self
    have hLen : (g.replayReplacement r).nodes.length = g.nodes.length :=
      (sameEdges_replayReplacement g r).length
    have hEpoch : (g.replayReplacement r).epoch =
        if g.epoch < r.epoch then r.epoch else g.epoch := by
      simp [Store.replayReplacement, hr]
    rw [foldl_cons, ih (g.replayReplacement r) (fun s hs => by
      rw [hLen]
      exact hLog s (mem_cons_of_mem _ hs)), hEpoch]
    rfl

theorem epoch_replayStore (im : Image) (hLog : im.LogInRange) :
    (replayStore im).epoch = logEpoch 0 im.replacements := by
  obtain ⟨-, -, -, -, -, hEpoch⟩ := replayedNodes_tables im.nodes
  have hTables := sameTables_replayEdges (replayedNodes im.nodes) (im.nodes.map NodeImage.inputs)
  obtain ⟨hNodes, -, -, -, -, -, hFrameEpoch⟩ := foldl_addFrame_other
    (replayEdges (replayedNodes im.nodes) (im.nodes.map NodeImage.inputs)) im.frameStates
  have hStart : (replayTables im).epoch = 0 := by
    simp only [replayTables, hFrameEpoch, hTables.epoch, hEpoch]
  have hLen : (replayTables im).nodes.length = (clearStart im.nodes).length := by
    simp only [replayTables, hNodes, hTables.length, length_replayedNodes]
  have hLe : im.nodes.length ≤ (clearStart im.nodes).length := by
    cases im.nodes <;> simp [clearStart]
  rw [replayStore_eq, epoch_foldl_replayReplacement, hStart]
  intro r hr
  rw [hLen]
  exact Nat.lt_of_lt_of_le (hLog r hr).1 hLe

/-! ## Retagging -/

def lastEpoch (log : List Replacement) (n : NodeId) : Option (BitVec 32) :=
  log.foldl (fun last r => if r.oldNode = n then some r.epoch else last) none

theorem foldl_lastEpoch (log : List Replacement) (n : NodeId) (last : Option (BitVec 32)) :
    log.foldl (fun last r => if r.oldNode = n then some r.epoch else last) last =
      (lastEpoch log n).or last := by
  induction log generalizing last with
  | nil => rfl
  | cons r log ih =>
    rw [lastEpoch, foldl_cons, foldl_cons, ih, ih]
    split
    all_goals cases lastEpoch log n <;> rfl

/-- Every logged node carries the tags of its last entry; no other node is touched. -/
theorem getElem?_foldl_retagNodes (log : List Replacement) (nodes : List NodeImage) (n : Nat) :
    (log.foldl retagNodes nodes)[n]? =
      match lastEpoch log n with
      | none => nodes[n]?
      | some e => nodes[n]?.map (NodeImage.retag e) := by
  induction log generalizing nodes with
  | nil => rfl
  | cons r log ih =>
    have hLast : lastEpoch (r :: log) n =
        (lastEpoch log n).or (if r.oldNode = n then some r.epoch else none) := by
      rw [lastEpoch, foldl_cons, foldl_lastEpoch]
    have hRetag : ∀ (e e' : BitVec 32) (nd : NodeImage), (nd.retag e).retag e' = nd.retag e' := by
      intro e e' nd
      have hFlags : (((nd.flags.set .replaced).set .dead).set .replaced).set .dead =
          (nd.flags.set .replaced).set .dead := by
        simp only [NodeFlags.set, NodeFlag.bit, NodeFlags.mk.injEq]
        ext i hi
        simp only [BitVec.getElem_or]
        grind
      simp only [NodeImage.retag, hFlags]
    rw [foldl_cons, ih, hLast, retagNodes, getElem?_modify]
    by_cases hr : r.oldNode = n
    · cases lastEpoch log n with
      | none => simp [hr]
      | some e => cases nodes[n]? <;> simp [hr, hRetag]
    · cases lastEpoch log n with
      | none => simp [hr]
      | some e => cases nodes[n]? <;> simp [hr]

/-- Setting both tombstone flags changes nothing exactly when both are set. -/
theorem flags_retag_iff (fs : NodeFlags) :
    (fs.set .replaced).set .dead = fs ↔ fs.has .replaced = true ∧ fs.has .dead = true := by
  have hBit : ∀ (x : BitVec 16) (k : Nat) (hk : k < 16),
      x &&& BitVec.twoPow 16 k ≠ 0 ↔ x.getLsbD k = true := by
    intro x k hk
    rw [BitVec.and_twoPow]
    cases x.getLsbD k
    · simp
    · simp only [if_true, ne_eq, iff_true]
      intro hZero
      have hGet := congrArg (fun y => BitVec.getLsbD y k) hZero
      simp [hk] at hGet
  have hReplaced := hBit fs.raw 1 (by omega)
  have hDead := hBit fs.raw 0 (by omega)
  have hOne : BitVec.twoPow 16 0 = 1 := by decide
  have hTwo : BitVec.twoPow 16 1 = 2 := by decide
  rw [hOne] at hDead
  rw [hTwo] at hReplaced
  simp only [NodeFlags.has, NodeFlag.bit, bne_iff_ne, hReplaced, hDead]
  constructor
  · intro h
    have hRaw : fs.raw ||| 2 ||| 1 = fs.raw := congrArg NodeFlags.raw h
    constructor
    · rw [← hRaw]
      simp
    · rw [← hRaw]
      simp
  · rintro ⟨h1, h0⟩
    have hRaw : fs.raw ||| 2 ||| 1 = fs.raw := by
      rw [← hOne, ← hTwo]
      ext i hi
      simp only [BitVec.getElem_or, BitVec.getElem_twoPow]
      have h1' : i = 1 → fs.raw[i] = true := by
        intro hi1
        subst hi1
        simpa using h1
      have h0' : i = 0 → fs.raw[i] = true := by
        intro hi0
        subst hi0
        simpa using h0
      grind
    simp only [NodeFlags.set, NodeFlag.bit, hRaw]

theorem retag_eq_iff (nd : NodeImage) (e : BitVec 32) : nd.retag e = nd ↔
      (nd.flags.has .replaced = true ∧ nd.flags.has .dead = true) ∧ nd.epoch = e := by
  rw [← flags_retag_iff]
  constructor
  · intro h
    exact ⟨congrArg NodeImage.flags h, (congrArg NodeImage.epoch h).symm⟩
  · rintro ⟨hFlags, hEpoch⟩
    simp only [NodeImage.retag, hFlags, ← hEpoch]

/-- Retagging by the log changes nothing exactly when every logged node already carries
the tags of its last entry. -/
theorem foldl_retagNodes_eq_iff (log : List Replacement) (nodes : List NodeImage) :
    log.foldl retagNodes nodes = nodes ↔
      ∀ n nd, nodes[n]? = some nd → ∀ e, lastEpoch log n = some e →
        (nd.flags.has .replaced = true ∧ nd.flags.has .dead = true) ∧ nd.epoch = e := by
  constructor
  · intro h n nd hnd e hLast
    have hGet := getElem?_foldl_retagNodes log nodes n
    rw [h, hLast, hnd] at hGet
    injection hGet with hGet
    exact (retag_eq_iff nd e).mp hGet.symm
  · intro h
    apply ext_getElem?
    intro n
    rw [getElem?_foldl_retagNodes]
    cases hLast : lastEpoch log n with
    | none => rfl
    | some e =>
      cases hnd : nodes[n]? with
      | none => rfl
      | some nd =>
        have hEq := (retag_eq_iff nd e).mpr (h n nd hnd e hLast)
        simp [hEq]

end B2Compiler.Ir
