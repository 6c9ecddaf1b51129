import B2Compiler.Ir.ReplayImage
import B2Compiler.Ir.StoreRecords

/-!
# Round trips

Two questions about the reader and the writer are answered here, each with the exact
condition.  Which graphs come back from a file as they were written, and which files
are written back as they were read?
-/

namespace B2Compiler.Ir

open Lib List Option Nat Store Image

/-! ## What the verifier asks of inputs and use lists -/

/-- Lists that are all found and together empty are each empty. -/
theorem eq_nil_of_mapM_flatten {α β : Type} {f : α → Option (List β)} {l : List α}
    {yss : List (List β)} (hMap : l.mapM f = some yss) (hFlat : yss.flatten = []) (x : α)
    (hx : x ∈ l) : f x = some [] := by
  induction l generalizing yss with
  | nil => cases hx
  | cons y l ih =>
    rw [mapM_cons] at hMap
    obtain ⟨ys, hy, hMap⟩ := bind_eq_some_iff.mp hMap
    obtain ⟨zss, hRest, hMap⟩ := bind_eq_some_iff.mp hMap
    injection hMap with hMap
    rw [← hMap, flatten_cons, append_eq_nil_iff] at hFlat
    rcases mem_cons.mp hx with rfl | hx
    · rw [hy, hFlat.1]
    · exact ih hRest hFlat.2 hx

theorem verify_eq_some_iff (im : Image) (used : NodeId → Bool) :
    im.verify used = some ⟨true, []⟩ ↔ im.verifyDiags used = some [] := by
  cases hDiags : im.verifyDiags used with
  | none => simp [Image.verify, hDiags]
  | some diags => cases diags <;> simp [Image.verify, hDiags]

variable {used : NodeId → Bool} {im : Image}

/-- Of the use lists only those of terminals matter. -/
theorem verifyDiags_congr (im : Image) {used' : NodeId → Bool}
    (h : ∀ n, n < im.nodeCount → isTerminal (im.node n).kind = true → used n = used' n) :
    im.verifyDiags used = im.verifyDiags used' := by
  have hNode : ∀ n ∈ range im.nodeCount, im.checkNode used n = im.checkNode used' n := by
    intro n hn
    have hUsed : (isTerminal (im.node n).kind && used n) =
        (isTerminal (im.node n).kind && used' n) := by
      cases hTerm : isTerminal (im.node n).kind with
      | false => rfl
      | true => rw [h n (mem_range.mp hn) hTerm]
    simp only [checkNode, hUsed]
  simp only [verifyDiags, mapM_congr_mem _ hNode]

theorem checkNode_of_verifyDiags (h : im.verifyDiags used = some []) {n : Nat}
    (hn : n < im.nodeCount) : im.checkNode used n = some [] := by
  obtain ⟨nodes, hNodes, h⟩ := bind_eq_some_iff.mp h
  obtain ⟨vectors, -, h⟩ := bind_eq_some_iff.mp h
  injection h with h
  simp only [append_eq_nil_iff] at h
  exact eq_nil_of_mapM_flatten hNodes h.1.1.1.1.1.1 n (mem_range.mpr hn)

theorem inputs_of_checkNode {n : Nat} (h : im.checkNode used n = some []) :
    (∀ v ∈ (im.node n).inputs, v < im.nodeCount) ∧
      (isTerminal (im.node n).kind = true → used n = false) := by
  obtain ⟨types, -, h⟩ := bind_eq_some_iff.mp h
  injection h with h
  simp only [append_eq_nil_iff] at h
  obtain ⟨⟨⟨⟨⟨⟨⟨⟨-, hInputs⟩, -⟩, -⟩, hUsed⟩, -⟩, -⟩, -⟩, -⟩ := h
  constructor
  · intro v hv
    obtain ⟨s, hs⟩ := mem_iff_getElem?.mp hv
    have hMem : (v, s) ∈ (im.node n).inputs.zipIdx := by
      rw [mk_mem_zipIdx_iff_getElem?]
      exact hs
    have hNil := flatMap_eq_nil_iff.mp hInputs (v, s) hMem
    by_contra hLt
    have hBad : im.validId v = false := by
      simp [validId, hLt]
    simp [hBad] at hNil
  · intro hTerm
    cases hn : used n with
    | false => rfl
    | true => simp [hTerm, hn] at hUsed

/-- Every input of every record names a record. -/
def Image.Closed (im : Image) : Prop :=
  ∀ nd ∈ im.nodes, ∀ v ∈ nd.inputs, v < im.nodes.length

/-- No record reads a terminal. -/
def Image.TerminalsUnread (im : Image) : Prop :=
  ∀ nd ∈ im.nodes, ∀ v ∈ nd.inputs, isTerminal (im.node v).kind = false

theorem node_of_mem {nd : NodeImage} (hnd : nd ∈ im.nodes) :
    ∃ n, n < im.nodeCount ∧ im.node n = nd := by
  obtain ⟨n, hn⟩ := List.mem_iff_getElem?.mp hnd
  refine ⟨n, (List.getElem?_eq_some_iff.mp hn).1, ?_⟩
  rw [Image.node, getD_eq_getElem?_getD, hn]
  rfl

theorem closed_of_verifyDiags (h : im.verifyDiags used = some []) : im.Closed := by
  intro nd hnd v hv
  obtain ⟨n, hn, hEq⟩ := node_of_mem hnd
  rw [← hEq] at hv
  exact (inputs_of_checkNode (checkNode_of_verifyDiags h hn)).1 v hv

/-- With complete use lists a node has users exactly when some record reads it. -/
theorem usesOf_eq_nil_iff {g : Store} (hUses : g.UseDef) (n : NodeId) :
    g.usesOf n = [] ↔ ∀ u, n ∉ g.inputs u := by
  constructor
  · intro hNil u hu
    obtain ⟨i, hi⟩ := mem_iff_getElem?.mp hu
    have hCount := hUses.counts n u i
    rw [hNil, if_pos hi, count_nil] at hCount
    exact absurd hCount zero_ne_one
  · intro hNone
    apply eq_nil_iff_forall_not_mem.mpr
    rintro ⟨u, i⟩ hMem
    have hPos := count_pos_iff.mpr hMem
    have hCount := hUses.counts n u i
    by_cases hRead : (g.inputs u)[i]? = some n
    · exact hNone u (mem_of_getElem? hRead)
    · rw [if_neg hRead] at hCount
      omega

theorem inputs_of_le (g : Store) {u : NodeId} (hu : g.nodes.length ≤ u) : g.inputs u = [] := by
  rw [inputs, node_of_le hu]
  exact take_zero

theorem mem_image_nodes (g : Store) (nd : NodeImage) :
    nd ∈ g.image.nodes ↔ ∃ n, n < g.nodes.length ∧ g.nodeImage n = nd := by
  simp [image]

/-- Terminals are unused exactly when no record reads one. -/
theorem terminalsUnread_iff {g : Store} (hUses : g.UseDef) : g.image.TerminalsUnread ↔
      ∀ n, n < g.nodes.length → isTerminal (g.image.node n).kind = true → g.usesOf n = [] := by
  constructor
  · intro h n hn hTerm
    rw [usesOf_eq_nil_iff hUses]
    intro u hu
    have hu' : u < g.nodes.length := by
      by_contra hLe
      rw [inputs_of_le g (Nat.le_of_not_lt hLe)] at hu
      cases hu
    have hFalse := h (g.nodeImage u) ((mem_image_nodes g _).mpr ⟨u, hu', rfl⟩) n hu
    rw [hTerm] at hFalse
    cases hFalse
  · intro h nd hnd v hv
    obtain ⟨u, hu, rfl⟩ := (mem_image_nodes g nd).mp hnd
    have hv' : v ∈ g.inputs u := hv
    obtain ⟨i, hi⟩ := mem_iff_getElem?.mp hv'
    have hLt := hUses.closed u i v hi
    cases hTerm : isTerminal (g.image.node v).kind with
    | false => rfl
    | true => exact absurd hv' ((usesOf_eq_nil_iff hUses v).mp (h v hLt hTerm) u)

/-- With complete use lists the verdict depends on the image alone. -/
theorem accepted_congr {g h : Store} (hImage : h.image = g.image) (hUses : h.UseDef)
    (hAccepted : g.Accepted) (hUnread : g.image.TerminalsUnread) : h.Accepted := by
  have hDiags := (verify_eq_some_iff _ _).mp hAccepted
  apply (verify_eq_some_iff _ _).mpr
  rw [hImage, ← hDiags]
  apply verifyDiags_congr
  intro n hn hTerm
  have hUnused := (inputs_of_checkNode (checkNode_of_verifyDiags hDiags hn)).2 hTerm
  rw [hUnused]
  rw [← hImage] at hUnread hn hTerm
  have hLt : n < h.nodes.length := by
    rw [← length_image_nodes]
    exact hn
  simp [(terminalsUnread_iff hUses).mp hUnread n hLt hTerm]

/-- The reader accepts a file exactly when it parses, its first record is the start node,
its log names records and the rebuilt graph verifies. -/
theorem deserializeInto_eq_ok_iff (bs : List Byte) (g' : Store) :
    deserializeInto bs fresh = some (.ok g') ↔
      ∃ version im rest, decode bs = .ok ((version, im), rest) ∧ im.StartFirst ∧
        im.LogInRange ∧ g' = replayStore im ∧ g'.Accepted := by
  have hGate : ∀ g : Store, (do
      let vr ← g.verify
      return if vr.ok then Except.ok g else .error "replayed graph failed verification") =
        some (.ok g') ↔ g = g' ∧ g.Accepted := by
    intro g
    rw [Store.Accepted, Store.verify, verify_eq_some_iff]
    cases hDiags : g.image.verifyDiags fun n => !(g.usesOf n).isEmpty with
    | none => simp [Image.verify, hDiags]
    | some diags => cases diags <;> simp [Image.verify, hDiags]
  constructor
  · intro h
    rw [deserializeInto] at h
    cases hRebuild : rebuildInto bs fresh with
    | error e =>
      rw [hRebuild] at h
      cases h
    | ok g =>
      rw [hRebuild] at h
      obtain ⟨hEq, hAccepted⟩ := (hGate g).mp h
      obtain ⟨version, im, rest, hDecode, hReplay⟩ := (rebuildInto_eq_ok_iff ..).mp hRebuild
      obtain ⟨hStart, hLog, hStore⟩ := (replay_eq_ok_iff ..).mp hReplay
      exact ⟨version, im, rest, hDecode, hStart, hLog, hEq ▸ hStore, hEq ▸ hAccepted⟩
  · rintro ⟨version, im, rest, hDecode, hStart, hLog, hStore, hAccepted⟩
    have hRebuild : rebuildInto bs fresh = .ok g' :=
      (rebuildInto_eq_ok_iff ..).mpr
        ⟨version, im, rest, hDecode, (replay_eq_ok_iff ..).mpr ⟨hStart, hLog, hStore⟩⟩
    rw [deserializeInto, hRebuild]
    exact (hGate g').mpr ⟨rfl, hAccepted⟩

/-! ## Which graphs come back -/

/-- Ids and table sizes are 32-bit numbers, as the types of the source have it. -/
structure Image.Addressable (im : Image) : Prop where
  nodes : im.nodes.length < 256 ^ 4
  frameStates : im.frameStates.length < 256 ^ 4 ∧ ∀ d ∈ im.frameStates, d.Fits
  specMetas : im.specMetas.length < 256 ^ 4
  deps : im.deps.length < 256 ^ 4
  replacements : im.replacements.length < 256 ^ 4

/-- Every node the log names carries the epoch of its last entry. -/
def Image.LogTagged (im : Image) : Prop :=
  ∀ n e, lastEpoch im.replacements n = some e → (im.node n).epoch = e

section RoundTrip

variable {g : Store}

theorem readable_current : ReadableVersion kIrFormatVersion := by
  exact ⟨by decide, le_refl _⟩

theorem fits_of_made (hOk : g.Ok) (hMade : g.Made) (hAddr : g.image.Addressable)
    (hClosed : g.image.Closed) : g.image.Fits := by
  have hLen := length_image_nodes g
  have hAddrNodes := hAddr.nodes
  refine ⟨⟨hAddr.nodes, ?_⟩, hAddr.frameStates, hAddr.specMetas, hAddr.deps,
    ⟨hAddr.replacements, ?_⟩⟩
  · intro nd hnd
    have hInputs := hClosed nd hnd
    obtain ⟨n, hn, rfl⟩ := (mem_image_nodes g nd).mp hnd
    refine ⟨hMade.reserved n hn, ?_, ?_⟩
    · have hNum : (g.inputs n).length = (g.node n).numInputs := length_inputs hOk n
      have hLt := hMade.numInputs n hn
      change (g.inputs n).length < 256 ^ 2
      rw [hNum]
      exact hLt
    · intro v hv
      exact lt_trans (hInputs v hv) hAddrNodes
  · intro r hr
    rw [hLen] at hAddrNodes
    have hLogged := hMade.logged r hr
    exact ⟨lt_trans hLogged.1 hAddrNodes, lt_trans hLogged.2 hAddrNodes⟩

theorem clearStart_of_made (hMade : g.Made) : clearStart g.image.nodes = g.image.nodes := by
  have hHead : g.image.nodes[0]? = some (g.nodeImage 0) := by
    rw [getElem?_image_nodes, if_pos hMade.nonempty]
  cases hNodes : g.image.nodes with
  | nil =>
    rw [hNodes] at hHead
    cases hHead
  | cons nd rest =>
    rw [hNodes] at hHead
    injection hHead with hHead
    have hPayload : nd.payload = 0 := by
      rw [hHead]
      exact hMade.start.2.1
    have hPayload2 : nd.payload2 = 0 := by
      rw [hHead]
      exact hMade.start.2.2
    have hClear : ({ nd with payload := 0, payload2 := 0 } : NodeImage) = nd := by
      rw [NodeImage.mk.injEq]
      exact ⟨rfl, rfl, hPayload.symm, hPayload2.symm, rfl, rfl, rfl, rfl, rfl⟩
    rw [clearStart, hClear]

theorem startFirst_of_made (hMade : g.Made) : g.image.StartFirst := by
  intro nd hnd
  rw [head?_eq_getElem?, getElem?_image_nodes, if_pos hMade.nonempty] at hnd
  injection hnd with hnd
  rw [← hnd]
  exact hMade.start.1

theorem lastEpoch_eq_some {log : List Replacement} {n : NodeId} {e : BitVec 32}
    (h : lastEpoch log n = some e) : ∃ r ∈ log, r.oldNode = n ∧ r.epoch = e := by
  induction log with
  | nil => cases h
  | cons r log ih =>
    rw [lastEpoch, foldl_cons, foldl_lastEpoch] at h
    cases hLast : lastEpoch log n with
    | some e' =>
      rw [hLast] at h
      obtain ⟨r', hr', hOld⟩ := ih (hLast.trans h)
      exact ⟨r', mem_cons_of_mem _ hr', hOld⟩
    | none =>
      rw [hLast, none_or] at h
      split_ifs at h with hOld
      injection h with h
      exact ⟨r, mem_cons_self, hOld, h⟩

/-- Of a graph made by calls replay changes the epoch tags of logged nodes at most. -/
theorem rebuilt_eq_iff (hMade : g.Made) : g.image.rebuilt = g.image ↔ g.image.LogTagged := by
  have hStart := clearStart_of_made hMade
  have hNodes : g.image.rebuilt = g.image ↔
      g.image.replacements.foldl retagNodes g.image.nodes = g.image.nodes := by
    rw [rebuilt, hStart]
    constructor
    · intro h
      exact congrArg Image.nodes h
    · intro h
      rw [h]
  rw [hNodes, foldl_retagNodes_eq_iff]
  constructor
  · intro h n e hLast
    obtain ⟨r, hr, hOld, -⟩ := lastEpoch_eq_some hLast
    have hn : n < g.nodes.length := hOld ▸ (hMade.logged r hr).1
    rw [node_image g hn]
    exact (h n (g.nodeImage n) (by rw [getElem?_image_nodes, if_pos hn]) e hLast).2
  · intro h n nd hnd e hLast
    obtain ⟨r, hr, hOld, -⟩ := lastEpoch_eq_some hLast
    have hn : n < g.nodes.length := hOld ▸ (hMade.logged r hr).1
    rw [getElem?_image_nodes, if_pos hn] at hnd
    injection hnd with hnd
    have hEpoch := h n e hLast
    rw [node_image g hn, hnd] at hEpoch
    refine ⟨?_, hEpoch⟩
    rw [← hnd, ← hOld]
    exact hMade.tombstones r hr

end RoundTrip

/-- A graph made through the interface and accepted by the verifier comes back from its
own file, byte for byte, exactly when every replaced node still carries the epoch of its
last log entry and no node reads a terminal. -/
theorem deserialize_serialize_iff (calls : List Call) (hAddr : (fresh.run calls).image.Addressable)
    (hAccepted : (fresh.run calls).Accepted) :
    (∃ g', deserializeInto (serialize (fresh.run calls)) fresh = some (.ok g') ∧
        g'.image = (fresh.run calls).image ∧
        serialize g' = serialize (fresh.run calls)) ↔
      (fresh.run calls).image.LogTagged ∧ (fresh.run calls).image.TerminalsUnread := by
  have hMade := made_fresh.run calls
  have hOk := ok_fresh.run calls
  generalize fresh.run calls = g at hAddr hAccepted hMade hOk
  have hClosed := closed_of_verifyDiags ((verify_eq_some_iff _ _).mp hAccepted)
  have hFits := fits_of_made hOk hMade hAddr hClosed
  have hLog : g.image.LogInRange := by
    intro r hr
    rw [length_image_nodes]
    exact hMade.logged r hr
  have hDecode : decode (serialize g) = .ok ((kIrFormatVersion, g.image), []) := by
    have h := exact_decode.get_put (kIrFormatVersion, g.image) [] ⟨readable_current, hFits⟩
    rw [append_nil] at h
    exact h
  have hUses := useDef_replayStore g.image hFits hClosed
  have hImage := replayStore_image g.image hFits hLog
  constructor
  · rintro ⟨g', hLoad, hSame, -⟩
    obtain ⟨version, im, rest, hDecode', -, -, hStore, hAccepted'⟩ :=
      (deserializeInto_eq_ok_iff ..).mp hLoad
    rw [hDecode] at hDecode'
    injection hDecode' with hDecode'
    injection hDecode' with hPair _
    injection hPair with _ hIm
    subst hIm
    rw [← hStore] at hUses hImage
    rw [hImage] at hSame
    refine ⟨(rebuilt_eq_iff hMade).mp hSame, ?_⟩
    rw [hSame] at hImage
    rw [← hImage, terminalsUnread_iff hUses]
    intro n hn hTerm
    have hDiags := (verify_eq_some_iff _ _).mp hAccepted'
    have hCount : n < g'.image.nodeCount := by
      rw [Image.nodeCount, length_image_nodes]
      exact hn
    simpa using (inputs_of_checkNode (checkNode_of_verifyDiags hDiags hCount)).2 hTerm
  · rintro ⟨hTagged, hUnread⟩
    rw [(rebuilt_eq_iff hMade).mpr hTagged] at hImage
    refine ⟨replayStore g.image, ?_, hImage, ?_⟩
    · exact (deserializeInto_eq_ok_iff ..).mpr ⟨kIrFormatVersion, g.image, [], hDecode,
        startFirst_of_made hMade, hLog, rfl, accepted_congr hImage hUses hAccepted hUnread⟩
    · rw [serialize, serialize, hImage]

/-- `return p + 6`, in which the sum replaced an earlier one. -/
def replacedSum : List Call :=
  [.parameter 0 .int, .constantI 5, .make .addI [1, 2] 0 0, .constantI 6,
    .make .addI [1, 4] 0 0, .replaceNode 3 5, .make .returnNode [0, 5] 0 0]

theorem deserialize_serialize_replacedSum : (fresh.run replacedSum).Accepted ∧
      ∃ g', deserializeInto (serialize (fresh.run replacedSum)) fresh = some (.ok g') ∧
        g'.image = (fresh.run replacedSum).image ∧
        serialize g' = serialize (fresh.run replacedSum) := by
  have hAccepted : (fresh.run replacedSum).Accepted := by decide +kernel
  have hAddr : (fresh.run replacedSum).image.Addressable := by
    have hFrames : (fresh.run replacedSum).image.frameStates = [] := by decide +kernel
    refine ⟨by decide +kernel, ⟨by decide +kernel, ?_⟩, by decide +kernel, by decide +kernel,
      by decide +kernel⟩
    rw [hFrames]
    intro d hd
    cases hd
  refine ⟨hAccepted, (deserialize_serialize_iff replacedSum hAddr hAccepted).mpr ⟨?_, ?_⟩⟩
  · intro n e hLast
    have hLog : (fresh.run replacedSum).image.replacements = [⟨3, 5, 1⟩] := by
      decide +kernel
    rw [hLog] at hLast
    obtain ⟨r, hr, rfl, rfl⟩ := lastEpoch_eq_some hLast
    rw [mem_singleton.mp hr]
    decide +kernel
  · have hAll : ∀ nd ∈ (fresh.run replacedSum).image.nodes, ∀ v ∈ nd.inputs,
        isTerminal ((fresh.run replacedSum).image.node v).kind = false := by
      decide +kernel
    exact hAll

def killedAfterReplace : List Call :=
  [.constantI 5, .constantI 6, .replaceNode 1 2, .killNode 1]

/-- A frame state that names a return before the return is made. -/
def forwardToReturn : List Call :=
  [.makeFrameState 0 0 [2] kInvalidFrameState [], .make .returnNode [0] 0 0]

/-- Both graphs verify.  The first comes back with the epoch tag of the replacement in
place of that of the kill, the second is refused. -/
theorem not_deserialize_serialize : ((fresh.run killedAfterReplace).Accepted ∧
      ¬ ∃ g', deserializeInto (serialize (fresh.run killedAfterReplace)) fresh = some (.ok g') ∧
        g'.image = (fresh.run killedAfterReplace).image ∧
        serialize g' = serialize (fresh.run killedAfterReplace)) ∧
    ((fresh.run forwardToReturn).Accepted ∧
      ¬ ∃ g', deserializeInto (serialize (fresh.run forwardToReturn)) fresh = some (.ok g') ∧
        g'.image = (fresh.run forwardToReturn).image ∧
        serialize g' = serialize (fresh.run forwardToReturn)) := by
  have hReload : ∀ g : Store,
      ((deserializeInto (serialize g) fresh).bind Except.toOption).map image ≠ some g.image →
      ¬ ∃ g', deserializeInto (serialize g) fresh = some (.ok g') ∧
        g'.image = g.image ∧ serialize g' = serialize g := by
    rintro g hNe ⟨g', hLoad, hImage, -⟩
    apply hNe
    rw [hLoad, ← hImage]
    rfl
  refine ⟨⟨by decide +kernel, ?_⟩, ⟨by decide +kernel, ?_⟩⟩
  all_goals
    apply hReload
    decide +kernel

/-! ## Which files come back -/

/-- Nothing follows the tables, there is a first record and it has no payloads, and every
record the log names is a tombstone with the epoch of its last entry. -/
def CanonicalFile (bs : List Byte) : Prop :=
  ∃ im, decode bs = .ok ((kIrFormatVersion, im), []) ∧
    (∃ nd rest, im.nodes = nd :: rest ∧ nd.payload = 0 ∧ nd.payload2 = 0) ∧
    ∀ n nd, im.nodes[n]? = some nd → ∀ e, lastEpoch im.replacements n = some e →
      (nd.flags.has .replaced = true ∧ nd.flags.has .dead = true) ∧ nd.epoch = e

theorem fits_clearStart {nodes : List NodeImage} (hFits : ∀ nd ∈ nodes, nd.Fits) :
    ∀ nd ∈ clearStart nodes, nd.Fits := by
  cases nodes with
  | nil =>
    intro nd hnd
    rw [clearStart, mem_singleton] at hnd
    rw [hnd]
    exact ⟨rfl, by decide, fun v hv => by cases hv⟩
  | cons nd₀ rest =>
    intro nd hnd
    rcases mem_cons.mp hnd with rfl | hnd
    · exact hFits nd₀ mem_cons_self
    · exact hFits nd (mem_cons_of_mem _ hnd)

theorem fits_foldl_retagNodes (log : List Replacement) {nodes : List NodeImage}
    (hFits : ∀ nd ∈ nodes, nd.Fits) : ∀ nd ∈ log.foldl retagNodes nodes, nd.Fits := by
  intro nd hnd
  obtain ⟨n, hn⟩ := mem_iff_getElem?.mp hnd
  rw [getElem?_foldl_retagNodes] at hn
  cases hLast : lastEpoch log n with
  | none =>
    rw [hLast] at hn
    exact hFits nd (mem_of_getElem? hn)
  | some e =>
    rw [hLast] at hn
    obtain ⟨nd', hnd', rfl⟩ := map_eq_some_iff.mp hn
    exact hFits nd' (mem_of_getElem? hnd')

theorem fits_rebuilt (hFits : im.Fits) : im.rebuilt.Fits := by
  refine ⟨⟨?_, ?_⟩, hFits.frameStates, hFits.specMetas, hFits.deps, hFits.replacements⟩
  · have hLen : im.rebuilt.nodes.length = (clearStart im.nodes).length :=
      length_foldl_retagNodes _ _
    rw [hLen]
    have hNodes := hFits.nodes.1
    cases hIm : im.nodes with
    | nil => exact one_lt_pow (by decide) (by decide)
    | cons nd rest =>
      rw [hIm] at hNodes
      exact hNodes
  · exact fits_foldl_retagNodes _ (fits_clearStart hFits.nodes.2)

theorem rebuilt_nodes_eq_iff (log : List Replacement) (nodes : List NodeImage) :
    log.foldl retagNodes (clearStart nodes) = nodes ↔
      (∃ nd rest, nodes = nd :: rest ∧ nd.payload = 0 ∧ nd.payload2 = 0) ∧
        log.foldl retagNodes nodes = nodes := by
  constructor
  · intro h
    have hHead := getElem?_foldl_retagNodes log (clearStart nodes) 0
    rw [h] at hHead
    cases nodes with
    | nil =>
      have hLen := congrArg length h
      rw [length_foldl_retagNodes] at hLen
      cases hLen
    | cons nd rest =>
      have hPayloads : nd.payload = 0 ∧ nd.payload2 = 0 := by
        cases hLast : lastEpoch log 0 with
        | none | some e =>
          rw [hLast] at hHead
          injection hHead with hHead
          rw [hHead]
          exact ⟨rfl, rfl⟩
      have hClear : clearStart (nd :: rest) = nd :: rest := by
        rw [clearStart, cons.injEq, NodeImage.mk.injEq]
        exact ⟨⟨rfl, rfl, hPayloads.1.symm, hPayloads.2.symm, rfl, rfl, rfl, rfl, rfl⟩, rfl⟩
      rw [hClear] at h
      exact ⟨⟨nd, rest, rfl, hPayloads⟩, h⟩
  · rintro ⟨⟨nd, rest, rfl, hPayload, hPayload2⟩, h⟩
    have hClear : clearStart (nd :: rest) = nd :: rest := by
      rw [clearStart, cons.injEq, NodeImage.mk.injEq]
      exact ⟨⟨rfl, rfl, hPayload.symm, hPayload2.symm, rfl, rfl, rfl, rfl, rfl⟩, rfl⟩
    rw [hClear, h]

theorem header_of_decode {bs rest : List Byte} {version : Nat}
    (h : decode bs = .ok ((version, im), rest)) : ∃ bs', readHeader bs = .ok (version, bs') := by
  obtain ⟨⟨version', b₀⟩, h₀, h⟩ := bind_eq_ok_iff.mp h
  obtain ⟨_, -, h⟩ := bind_eq_ok_iff.mp h
  obtain ⟨_, -, h⟩ := bind_eq_ok_iff.mp h
  obtain ⟨_, -, h⟩ := bind_eq_ok_iff.mp h
  obtain ⟨_, -, h⟩ := bind_eq_ok_iff.mp h
  obtain ⟨_, -, h⟩ := bind_eq_ok_iff.mp h
  injection h with h
  injection h with hPair _
  injection hPair with hVersion _
  exact ⟨b₀, hVersion ▸ h₀⟩

/-- A file of the current version that the reader accepts is written back as it was
exactly when it is canonical. -/
theorem serialize_deserialize_iff (bs bs' : List Byte) (g : Store)
    (hLoad : deserializeInto bs fresh = some (.ok g))
    (hHeader : readHeader bs = .ok (kIrFormatVersion, bs')) :
    serialize g = bs ↔ CanonicalFile bs := by
  obtain ⟨version, im, rest, hDecode, -, hLog, rfl, -⟩ :=
    (deserializeInto_eq_ok_iff ..).mp hLoad
  obtain ⟨bs'', hHeader'⟩ := header_of_decode hDecode
  rw [hHeader] at hHeader'
  injection hHeader' with hHeader'
  injection hHeader' with hVersion _
  subst hVersion
  obtain ⟨hBs, -, hFits⟩ := exact_decode.put_get _ _ _ hDecode
  have hImage := replayStore_image im hFits hLog
  have hBytes : serialize (replayStore im) = bs ↔ im.rebuilt = im ∧ rest = [] := by
    rw [serialize, hImage, hBs]
    constructor
    · intro h
      have hNil : encode kIrFormatVersion im.rebuilt ++ [] =
          encode kIrFormatVersion im ++ rest := by
        rw [append_nil]
        exact h
      obtain ⟨hIm, hRest⟩ := encode_injective readable_current (fits_rebuilt hFits) hFits hNil
      exact ⟨hIm, hRest.symm⟩
    · rintro ⟨hIm, hRest⟩
      rw [hIm, hRest, append_nil]
  have hNodes : im.rebuilt = im ↔
      im.replacements.foldl retagNodes (clearStart im.nodes) = im.nodes := by
    constructor
    · intro h
      exact congrArg Image.nodes h
    · intro h
      rw [rebuilt, h]
  rw [hBytes, hNodes, rebuilt_nodes_eq_iff, foldl_retagNodes_eq_iff]
  constructor
  · rintro ⟨⟨hFirst, hTagged⟩, hRest⟩
    exact ⟨im, hRest ▸ hDecode, hFirst, hTagged⟩
  rintro ⟨im', hDecode', hFirst, hTagged⟩
  rw [hDecode] at hDecode'
  injection hDecode' with hDecode'
  injection hDecode' with hPair hRest
  injection hPair with _ hIm
  subst hIm
  exact ⟨⟨hFirst, hTagged⟩, hRest⟩

/-- The file of `replacedSum` and the graph it loads as. -/
theorem serialize_deserialize_replacedSum : serialize (replayStore (fresh.run replacedSum).image) =
      serialize (fresh.run replacedSum) := by
  apply (serialize_deserialize_iff (serialize (fresh.run replacedSum))
    (putTables (fresh.run replacedSum).image) _ ?_ ?_).mpr
  · refine ⟨(fresh.run replacedSum).image, by decide +kernel, ⟨_, _, rfl, rfl, rfl⟩, ?_⟩
    intro n nd hnd e hLast
    have hLog : (fresh.run replacedSum).image.replacements = [⟨3, 5, 1⟩] := by
      decide +kernel
    rw [hLog] at hLast
    obtain ⟨r, hr, rfl, rfl⟩ := lastEpoch_eq_some hLast
    rw [mem_singleton.mp hr] at hnd ⊢
    injection hnd with hnd
    rw [← hnd]
    decide +kernel
  · decide +kernel
  · decide +kernel

/-- The log entry of `replacedSum` without the tombstone it is about. -/
def staleLog : Image :=
  { (fresh.run replacedSum).image with
    nodes := (fresh.run replacedSum).image.nodes.modify 3 fun nd =>
      { nd with flags := {}, epoch := 0 } }

/-- Trailing bytes are not noticed, and neither is a log that contradicts the records. -/
theorem not_serialize_deserialize :
    (∃ g bs', deserializeInto (serialize fresh ++ [0]) fresh = some (.ok g) ∧
      readHeader (serialize fresh ++ [0]) = .ok (kIrFormatVersion, bs') ∧
      serialize g ≠ serialize fresh ++ [0]) ∧
    (∃ g bs', deserializeInto (encode kIrFormatVersion staleLog) fresh = some (.ok g) ∧
      readHeader (encode kIrFormatVersion staleLog) = .ok (kIrFormatVersion, bs') ∧
      serialize g ≠ encode kIrFormatVersion staleLog) := by
  refine ⟨⟨replayStore fresh.image, putTables fresh.image ++ [0], ?_, ?_, ?_⟩,
    ⟨replayStore staleLog, putTables staleLog, ?_, ?_, ?_⟩⟩
  all_goals decide +kernel

end B2Compiler.Ir
