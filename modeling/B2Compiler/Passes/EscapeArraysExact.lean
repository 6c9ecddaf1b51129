import B2Compiler.Ir.VerifiedGraph
import B2Compiler.Passes.EscapeArraysValues

/-!
# What an array virtual object records

Both lists of elements come out dense: as many elements as the largest listed index asks
for, whatever the length of the array, each the last value stored at its index or the
default.  The virtual object made of a list has the length and then the list as inputs, as
long as their number fits in 16 bits.
-/

namespace B2Compiler.Passes.Escape

open Ir List

/-! ## The two lists -/

/-- A dense list of elements: as long as the largest listed index asks for; a listed
element is what the array holds there, every other the default. -/
structure DenseElems (g g' : Store) (alloc mem : NodeId) (ty : RawType)
    (listed : Int → Prop) (elems : List NodeId) : Prop where
  bound : ∀ idx, listed idx → idx < elems.length
  tight : elems = [] ∨ listed ((elems.length : Int) - 1)
  known : ∀ idx, listed idx → lastStored g alloc mem idx ≠ none ∨ chainEnd g mem ≠ .merge
  listedElem : ∀ (i : Nat) v, elems[i]? = some v → listed i → IsContents g g' alloc mem ty i v
  otherElem : ∀ (i : Nat) v, elems[i]? = some v → ¬listed i → IsDefault g' ty v

/-- What a recorded array virtual object consists of. -/
structure RecordedArray (h : Store) (ty : RawType) (len : NodeId) (elems : List NodeId)
    (vobj : NodeId) : Prop where
  kind : (h.node vobj).kind = .virtualObjectState
  type : (h.node vobj).payload = ty.setWidth 32
  isArray : (h.node vobj).payload2 = 1
  inputs : h.inputs vobj = len :: elems

theorem recordedArray_make {h : Store} (hOk : h.Ok) (ty : RawType) (len : NodeId)
    {elems : List NodeId} (hSize : elems.length ≤ 65534) :
    RecordedArray (makeArrayVirtualObject h ty len elems).1 ty len elems
      (makeArrayVirtualObject h ty len elems).2 := by
  have hNode : (makeArrayVirtualObject h ty len elems).1.node
      (makeArrayVirtualObject h ty len elems).2 =
      { kind := .virtualObjectState, edgeOffset := h.edgePool.length,
        numInputs := (len :: elems).length % 65536, payload := ty.setWidth 32,
        payload2 := 1 } := by
    unfold makeArrayVirtualObject
    rw [Store.makeRaw_node]
    exact if_pos rfl
  constructor
  · rw [hNode]
  · rw [hNode]
  · rw [hNode]
  have hTake : (len :: elems).length % 65536 = (len :: elems).length := by
    rw [length_cons]
    omega
  unfold makeArrayVirtualObject
  rw [Store.makeRaw_inputs _ _ _ _ _ hOk, hTake, take_length]
  exact if_pos rfl

theorem isIndex_of_intConstant {g : Store} {n : NodeId} {idx : Int}
    (h : intConstant g n = some idx) : IsIndex idx := by
  unfold intConstant at h
  split at h
  · cases h
  rw [Option.some_inj] at h
  subst h
  have hLow := BitVec.le_toInt ((g.node n).constValue.setWidth 32)
  have hHigh := BitVec.toInt_lt (x := (g.node n).constValue.setWidth 32)
  unfold IsIndex
  omega

theorem mem_foldl_pushNew {l acc : List Int} {idx : Int} :
    idx ∈ l.foldl pushNew acc ↔ idx ∈ acc ∨ idx ∈ l := by
  induction l generalizing acc with
  | nil => simp
  | cons j l ih =>
    rw [foldl_cons, ih, mem_cons]
    have hPush : idx ∈ pushNew acc j ↔ idx ∈ acc ∨ idx = j := by
      unfold pushNew
      split
      · rename_i hMem
        exact ⟨.inl, fun h => h.elim id fun hEq => hEq ▸ hMem⟩
      · simp
    rw [hPush, or_assoc]

theorem mem_elemIndices {g : Store} {uses : List ClassifiedUse} {idx : Int} :
    idx ∈ elemIndices g uses ↔
      ∃ u ∈ uses, (u.cls = .reader ∨ u.cls = .writer) ∧ indexOfUse g u = some idx := by
  simp [elemIndices, mem_foldl_pushNew, and_assoc]

theorem isIndex_of_mem {g : Store} {uses : List ClassifiedUse} {idx : Int}
    (h : idx ∈ elemIndices g uses) : IsIndex idx := by
  obtain ⟨u, -, -, hIdx⟩ := mem_elemIndices.mp h
  unfold indexOfUse at hIdx
  dsimp only at hIdx
  split at hIdx
  · exact isIndex_of_intConstant hIdx
  · cases hIdx

section Lists

variable {g : Store} {alloc mem : NodeId} {kind : NodeKind} {reads indices : List Int}

theorem resolveFsVals_dense {s s' : FsRun} {vals : FsVobjVals} (hForm : Formed s.g)
    (hCache : CacheOk s) (hMem : mem = kInvalidNodeId ∨ mem < s.g.nodes.length)
    (hIndex : ∀ idx ∈ indices, IsIndex idx)
    (h : resolveFsVals alloc kind indices reads mem s = (s', some vals)) :
    vals.len = s.g.input alloc 1 ∧ Grows s.g s'.g ∧
      DenseElems s.g s'.g alloc mem (elemTyOf s.g alloc kind)
        (fun idx => idx ∈ indices ∧ Included s.g alloc mem reads idx) vals.elems := by
  unfold resolveFsVals at h
  dsimp only at h
  split at h
  · rw [Prod.mk.injEq] at h
    cases h.2
  rcases hMax : maxIncluded s.g alloc mem reads indices (-1) with _ | maxIdx
  · rw [hMax] at h
    cases h
  rw [hMax] at h
  dsimp only at h
  obtain ⟨hLow, hKnown, hBound, hTight⟩ := maxIncluded_spec hForm hMax
  -- the size is one more than the largest included index
  have hSize : (((asSize maxIdx + 1) % 2 ^ 64 : Nat) : Int) = maxIdx + 1 := by
    rcases hTight with hEq | ⟨hMemMax, -⟩
    · subst hEq
      decide
    have hRange := hIndex maxIdx hMemMax
    by_cases hNeg : maxIdx < 0
    · have hEq : maxIdx = -1 := by omega
      subst hEq
      decide
    · have hPos := asSize_of_nonneg hRange (by omega)
      unfold IsIndex at hRange
      omega
  have hCap : maxIdx < 2 ^ 31 := by
    rcases hTight with hEq | ⟨hMemMax, -⟩
    · omega
    · exact (hIndex maxIdx hMemMax).2
  generalize (asSize maxIdx + 1) % 2 ^ 64 = size at h hSize
  rcases hFill : fillListed alloc mem (elemTyOf s.g alloc kind) reads indices s
    (replicate size kInvalidNodeId) with ⟨s₁, _ | elems⟩
  · rw [hFill] at h
    cases h
  rw [hFill] at h
  dsimp only at h
  obtain ⟨hGrows, hCache₁, hLength, hFilled⟩ :=
    fillListed_spec hForm hMem hIndex (grows_refl hForm.ok) hCache
      (by rw [length_replicate]; omega) (filled_replicate size) hFill
  rw [length_replicate] at hLength
  split at h
  · cases h
  rename_i hValid
  obtain ⟨hMade, -, hDefault⟩ := defOf_spec hGrows.ok hCache₁ (elemTyOf s.g alloc kind)
  rw [Prod.mk.injEq, Option.some_inj] at h
  obtain ⟨rfl, rfl⟩ := h
  refine ⟨rfl, hGrows.trans hMade, ?_⟩
  -- a slot is filled exactly where an index names it
  have hElem : ∀ (i : Nat) v, (elems.map fun v =>
      if v = kInvalidNodeId then (defOf s₁ (elemTyOf s.g alloc kind)).2 else v)[i]? = some v →
      ((i : Int) ∈ indices → IsContents s.g (defOf s₁ (elemTyOf s.g alloc kind)).1.g alloc mem
        (elemTyOf s.g alloc kind) i v) ∧
      ((i : Int) ∉ indices → IsDefault (defOf s₁ (elemTyOf s.g alloc kind)).1.g
        (elemTyOf s.g alloc kind) v) := by
    intro i v hv
    rw [getElem?_map, Option.map_eq_some_iff] at hv
    obtain ⟨w, hw, rfl⟩ := hv
    obtain ⟨hIn, hOut⟩ := hFilled i w hw
    constructor
    · intro hi
      obtain ⟨hContents, hNe⟩ := hIn (.inr hi)
      rw [if_neg hNe]
      exact hContents.grows hMade
    · intro hi
      rw [if_pos (hOut (by simpa using hi))]
      exact hDefault hValid
  constructor
  · intro idx ⟨hIdx, hIncluded⟩
    have hLe := hBound idx hIdx hIncluded
    rw [length_map, hLength]
    omega
  · rcases hTight with hEq | ⟨hMemMax, hIncluded⟩
    · left
      apply eq_nil_of_length_eq_zero
      rw [length_map, hLength]
      omega
    · right
      have hLast : (((elems.map fun v => if v = kInvalidNodeId then
          (defOf s₁ (elemTyOf s.g alloc kind)).2 else v).length : Nat) : Int) - 1 = maxIdx := by
        rw [length_map, hLength]
        omega
      rw [hLast]
      exact ⟨hMemMax, hIncluded⟩
  · intro idx hListed
    exact hKnown idx hListed.1
  · intro i v hv hListed
    exact (hElem i v hv).1 hListed.1
  · intro i v hv hNot
    by_cases hi : (i : Int) ∈ indices
    · -- named, but neither stored to nor read: the array holds the default there
      rcases (hElem i v hv).1 hi with hStored | ⟨-, hZero⟩
      · exact absurd ⟨hi, .inl (hStored ▸ Option.some_ne_none v)⟩ hNot
      · exact hZero
    · exact (hElem i v hv).2 hi

theorem foldl_max_spec (l : List Int) (m : Int) : m ≤ l.foldl max m ∧ (∀ j ∈ l, j ≤ l.foldl max m) ∧
      (l.foldl max m = m ∨ l.foldl max m ∈ l) := by
  induction l generalizing m with
  | nil => simp
  | cons j l ih =>
    obtain ⟨hLe, hAll, hAttained⟩ := ih (max m j)
    rw [foldl_cons]
    refine ⟨by omega, ?_, ?_⟩
    · intro k hk
      rcases mem_cons.mp hk with rfl | hk
      · omega
      · exact hAll k hk
    · rcases hAttained with hEq | hMem
      · by_cases hMax : m ≤ j
        · exact .inr (mem_cons.mpr (.inl (by omega)))
        · exact .inl (by omega)
      · exact .inr (mem_cons_of_mem _ hMem)

/-- The list the partial escape takes, where no listed index is negative. -/
theorem snapshotElems_dense {uses : List ClassifiedUse} {e : NodeId} {g' : Store}
    {r : Snapshot (List NodeId)} (hForm : Formed g)
    (hMem : mem = kInvalidNodeId ∨ mem < g.nodes.length)
    (hTy : hasDefault (elemTyOf g alloc kind) = true)
    (hIndex : ∀ idx ∈ snapElems g uses e indices, IsIndex idx ∧ 0 ≤ idx)
    (h : snapshotElems alloc kind uses indices e mem g = (g', r)) :
    r ≠ .undefined ∧ ∀ elems, r = .taken elems →
      Grows g g' ∧ DenseElems g g' alloc mem (elemTyOf g alloc kind)
        (fun idx => idx ∈ snapElems g uses e indices) elems := by
  unfold snapshotElems at h
  dsimp only at h
  generalize snapElems g uses e indices = listed at h hIndex
  split at h
  · rw [Prod.mk.injEq] at h
    obtain ⟨-, rfl⟩ := h
    exact ⟨by simp, fun _ hBad => by cases hBad⟩
  obtain ⟨hLow, hAll, hAttained⟩ := foldl_max_spec listed (-1)
  generalize listed.foldl max (-1) = maxIdx at h hLow hAll hAttained
  -- the size is one more than the largest listed index
  have hSize : ((if 0 ≤ maxIdx then asSize maxIdx + 1 else 0 : Nat) : Int) = maxIdx + 1 := by
    rcases hAttained with hEq | hMemMax
    · subst hEq
      decide
    · have hPos := asSize_of_nonneg (hIndex maxIdx hMemMax).1 (hIndex maxIdx hMemMax).2
      rw [if_pos (hIndex maxIdx hMemMax).2]
      omega
  generalize (if 0 ≤ maxIdx then asSize maxIdx + 1 else 0) = size at h hSize
  rcases hFill : fillSnapshot alloc mem (elemTyOf g alloc kind) listed g
    (replicate size kInvalidNodeId) with ⟨g₁, r₁⟩
  obtain ⟨hDefined, hTaken⟩ := fillSnapshot_spec hForm hMem (by
    intro idx hIdx
    have hLe := hAll idx hIdx
    rw [length_replicate]
    exact ⟨(hIndex idx hIdx).1, (hIndex idx hIdx).2, by omega⟩) (grows_refl hForm.ok)
    (filled_replicate size) hFill
  rw [hFill] at h
  cases r₁ with
  | undefined => exact absurd rfl hDefined
  | refused =>
    rw [Prod.mk.injEq] at h
    obtain ⟨-, rfl⟩ := h
    exact ⟨by simp, fun _ hBad => by cases hBad⟩
  | taken elems₁ =>
    obtain ⟨hGrows, hLength, hKnown, hFilled⟩ := hTaken elems₁ rfl
    rw [length_replicate] at hLength
    dsimp only at h
    rw [Prod.mk.injEq] at h
    obtain ⟨rfl, rfl⟩ := h
    refine ⟨by simp, ?_⟩
    intro elems hEq
    cases hEq
    have hPad : padElems (elemTyOf g alloc kind) elems₁ g₁ =
        ((padElems (elemTyOf g alloc kind) elems₁ g₁).1,
          (padElems (elemTyOf g alloc kind) elems₁ g₁).2) := rfl
    obtain ⟨hPadded, hLen, hElems⟩ := padElems_spec hTy hGrows.ok hPad
    refine ⟨hGrows.trans hPadded, ?_⟩
    constructor
    · intro idx hIdx
      have hLe := hAll idx hIdx
      rw [hLen, hLength]
      omega
    · rcases hAttained with hEq | hMemMax
      · left
        apply eq_nil_of_length_eq_zero
        rw [hLen, hLength]
        omega
      · right
        have hLast : (((padElems (elemTyOf g alloc kind) elems₁ g₁).2.length : Nat) : Int) - 1 =
            maxIdx := by
          rw [hLen, hLength]
          omega
        rw [hLast]
        exact hMemMax
    · exact hKnown
    · intro i w hw hi
      obtain ⟨v, hv, hCase⟩ := hElems i w hw
      obtain ⟨hIn, -⟩ := hFilled i v hv
      obtain ⟨hContents, hNe⟩ := hIn (.inr hi)
      rcases hCase with ⟨-, rfl⟩ | ⟨hEmpty, -⟩
      · exact hContents.grows hPadded
      · exact absurd hEmpty hNe
    · intro i w hw hi
      obtain ⟨v, hv, hCase⟩ := hElems i w hw
      obtain ⟨-, hOut⟩ := hFilled i v hv
      have hEmpty := hOut (by simpa using hi)
      rcases hCase with ⟨hNe, -⟩ | ⟨-, hDefault⟩
      · exact absurd hEmpty hNe
      · exact hDefault

end Lists


/-- A verified graph is formed as the snapshots need it. -/
theorem formed_of_accepted {g : Store} (hOk : g.Ok) (hAcc : g.Accepted)
    (hSmall : g.nodes.length ≤ kInvalidNodeId) : Formed g where
  ok := hOk
  inRange n a ha := by
    by_cases hn : n < g.nodes.length
    · obtain ⟨slot, hSlot⟩ := mem_iff_getElem?.mp ha
      exact (Store.input_of_accepted hAcc hn hSlot).1
    · rw [Store.inputs, Store.node_of_le (Nat.le_of_not_lt hn)] at ha
      cases ha
  small := hSmall
  arity n hKind := by
    by_cases hn : n < g.nodes.length
    · have hArity := Store.arity_of_accepted hAcc hn
      rw [hKind, Store.length_inputs hOk] at hArity
      exact hArity
    · rw [Store.node_of_le (Nat.le_of_not_lt hn)] at hKind
      cases hKind

theorem DenseElems.grows {g g' g'' : Store} {alloc mem : NodeId} {ty : RawType}
    {listed : Int → Prop} {elems : List NodeId} (h : DenseElems g g' alloc mem ty listed elems)
    (hGrows : Grows g' g'') : DenseElems g g'' alloc mem ty listed elems where
  bound := h.bound
  tight := h.tight
  known := h.known
  listedElem i v hv hi := (h.listedElem i v hv hi).grows hGrows
  otherElem i v hv hi := (h.otherElem i v hv hi).grows hGrows

theorem DenseElems.length_le {g g' : Store} {alloc mem : NodeId} {ty : RawType}
    {listed : Int → Prop} {elems : List NodeId} (h : DenseElems g g' alloc mem ty listed elems)
    (hFits : ∀ idx, listed idx → idx ≤ 65533) : elems.length ≤ 65534 := by
  rcases h.tight with rfl | hLast
  · exact Nat.zero_le _
  · have hLe := hFits _ hLast
    omega

/-- Every array virtual object the pass records: the listing's, made in any graph that
grew from the plan's, and the one of a partial escape. -/
theorem arraySnapshots_dense (alloc mem : NodeId) (kind : NodeKind) (uses : List ClassifiedUse) :
    (∀ (s s' : FsRun) (vals : FsVobjVals) (h : Store), Formed s.g → CacheOk s →
      (mem = kInvalidNodeId ∨ mem < s.g.nodes.length) →
      (∀ idx ∈ elemIndices s.g uses, idx ≤ 65533) →
      resolveFsVals alloc kind (elemIndices s.g uses) (readElems s.g uses) mem s = (s', some vals) →
      Grows s'.g h →
      DenseElems s.g h alloc mem (elemTyOf s.g alloc kind) (fun idx => idx ∈ elemIndices s.g uses ∧
            Included s.g alloc mem (readElems s.g uses) idx) vals.elems ∧
        RecordedArray (makeArrayVirtualObject h (elemTyOf s.g alloc kind) vals.len vals.elems).1
          (elemTyOf s.g alloc kind) (s.g.input alloc 1) vals.elems
          (makeArrayVirtualObject h (elemTyOf s.g alloc kind) vals.len vals.elems).2) ∧
    (∀ (g₀ g : Store) (e : NodeId), Formed g → (mem = kInvalidNodeId ∨ mem < g.nodes.length) →
      hasDefault (elemTyOf g alloc kind) = true →
      (∀ idx ∈ snapElems g uses e (elemIndices g₀ uses), 0 ≤ idx ∧ idx ≤ 65533) →
      match snapshotArray alloc kind uses (elemIndices g₀ uses) e mem g with
      | (_, .refused) => True
      | (_, .undefined) => False
      | (g', .taken vobj) => ∃ elems, DenseElems g g' alloc mem (elemTyOf g alloc kind)
            (fun idx => idx ∈ snapElems g uses e (elemIndices g₀ uses)) elems ∧
          RecordedArray g' (elemTyOf g alloc kind) (g.input alloc 1) elems vobj) := by
  constructor
  · intro s s' vals h hForm hCache hMem hFits hRun hGrows
    obtain ⟨hLen, -, hDense⟩ :=
      resolveFsVals_dense hForm hCache hMem (fun idx hIdx => isIndex_of_mem hIdx) hRun
    have hSize := hDense.length_le fun idx hIdx => hFits idx hIdx.1
    rw [← hLen]
    exact ⟨hDense.grows hGrows, recordedArray_make hGrows.ok _ _ hSize⟩
  · intro g₀ g e hForm hMem hTy hFits
    have hIndex : ∀ idx ∈ snapElems g uses e (elemIndices g₀ uses), IsIndex idx ∧ 0 ≤ idx :=
      fun idx hIdx => ⟨isIndex_of_mem (mem_filter.mp hIdx).1, (hFits idx hIdx).1⟩
    unfold snapshotArray
    dsimp only
    rcases hRun : snapshotElems alloc kind uses (elemIndices g₀ uses) e mem g with ⟨g', r⟩
    obtain ⟨hDefined, hTaken⟩ := snapshotElems_dense hForm hMem hTy hIndex hRun
    cases r with
    | refused => trivial
    | undefined => exact hDefined rfl
    | taken elems =>
      obtain ⟨hGrows, hDense⟩ := hTaken elems rfl
      have hSize := hDense.length_le fun idx hIdx => (hFits idx hIdx).2
      exact ⟨elems, hDense.grows (grows_makeRaw hGrows.ok _ _ _ _ _),
        recordedArray_make hGrows.ok _ _ hSize⟩

/-! ## An array that is stored to once -/

/-- An array of length 3 with 7 stored at index 1, and then passed to a call. -/
def sparseArray : List Call :=
  [.constantI 3, .make .newArray [0, 1] 1 0, .constantI 1, .constantI 7,
    .make .storeElem [2, 0, 2, 3, 4] 1 0, .makeFrameState 0 0 [] kInvalidFrameState [],
    .make .callStatic [5, 5, 2, 6] 0 0, .make .returnNode [7] 0 0]

def sparseGraph : Store := Store.fresh.run sparseArray

def sparseUses : List ClassifiedUse := classifiedUses sparseGraph 2

namespace Sparse

theorem accepted : sparseGraph.Accepted := by decide +kernel

theorem formed : Formed sparseGraph :=
  formed_of_accepted (Store.ok_fresh.run sparseArray) accepted (by decide +kernel)

end Sparse

/-- The object recorded for the call has two elements. -/
theorem arraySnapshots_dense_sparse :
    (snapshotArray 2 .newArray sparseUses (elemIndices sparseGraph sparseUses) 7 5
        sparseGraph).2 = .taken 10 ∧
      ∃ elems, DenseElems sparseGraph
        (snapshotArray 2 .newArray sparseUses (elemIndices sparseGraph sparseUses) 7 5
          sparseGraph).1 2 5 IRType.int.raw
        (fun idx => idx ∈ snapElems sparseGraph sparseUses 7 (elemIndices sparseGraph sparseUses))
        elems := by
  have h := (arraySnapshots_dense 2 5 .newArray sparseUses).2 sparseGraph sparseGraph 7
    Sparse.formed (by decide +kernel) (by decide +kernel) (by decide +kernel)
  have hTaken : (snapshotArray 2 .newArray sparseUses (elemIndices sparseGraph sparseUses) 7 5
      sparseGraph).2 = .taken 10 := by decide +kernel
  refine ⟨hTaken, ?_⟩
  rcases hRun : snapshotArray 2 .newArray sparseUses (elemIndices sparseGraph sparseUses) 7 5
    sparseGraph with ⟨g', r⟩
  rw [hRun] at h hTaken
  subst hTaken
  obtain ⟨elems, hDense, -⟩ := h
  have hTy : elemTyOf sparseGraph 2 .newArray = IRType.int.raw := by decide +kernel
  exact ⟨elems, hTy ▸ hDense⟩

/-- A verified graph and an array of constant length whose recorded object does not have
as many elements. -/
theorem not_arraySnapshots_length :
    ¬ ∀ (g : Store) (alloc e mem vobj : NodeId) (g' : Store) (length : Int), g.Accepted →
      (g.node alloc).kind = .newArray → intConstant g (g.input alloc 1) = some length →
      snapshotArray alloc .newArray (classifiedUses g alloc)
        (elemIndices g (classifiedUses g alloc)) e mem g = (g', .taken vobj) →
      ((g'.inputs vobj).length : Int) = 1 + length := by
  intro hClaim
  have hTaken : (snapshotArray 2 .newArray (classifiedUses sparseGraph 2)
      (elemIndices sparseGraph (classifiedUses sparseGraph 2)) 7 5 sparseGraph).2 =
      .taken 10 := by decide +kernel
  have hLength := hClaim sparseGraph 2 7 5 10 _ 3 Sparse.accepted (by decide +kernel)
    (by decide +kernel) (Prod.ext rfl hTaken)
  revert hLength
  decide +kernel

end B2Compiler.Passes.Escape
