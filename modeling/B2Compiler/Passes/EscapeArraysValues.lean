import B2Compiler.Ir.StoreUses
import B2Compiler.Passes.EscapeArrays

/-!
# The values of an array snapshot

The stores a backward walk meets are a write log, the newest first, and the value the walk
finds is what the log leaves at the index.  The loops that fill a list of elements put that
value, or the default of the element type, into the slot of each index they are given.
-/

namespace B2Compiler.Passes.Escape

open Ir List

/-! ## The stores before a memory state -/

inductive ChainEnd where
  | entry | merge | cap
  deriving DecidableEq, Repr

/-- The nodes a backward walk passes, the newest first. -/
def memChain (g : Store) : Nat → NodeId → List NodeId × ChainEnd
  | 0, _ => ([], .cap)
  | steps + 1, cur =>
    if cur = kInvalidNodeId ∨ g.nodeCount ≤ cur then ([], .entry)
    else if isMerge (g.node cur).kind then ([], .merge)
    else
      let (older, ending) := memChain g steps (memInputOf g cur)
      (cur :: older, ending)

/-- What a node writes to the array at a constant index. -/
def elemWrite (g : Store) (alloc n : NodeId) : Option (Int × NodeId) :=
  if (g.node n).kind = .storeElem ∧ g.input n 2 = alloc then
    (intConstant g (g.input n 3)).map fun idx => (idx, g.input n 4)
  else none

/-- The stores to the array before a memory state, the newest first. -/
def elemWrites (g : Store) (alloc mem : NodeId) : List (Int × NodeId) :=
  (memChain g kPeaMaxChainSteps mem).1.filterMap (elemWrite g alloc)

/-- The last value stored at an index before a memory state. -/
def lastStored (g : Store) (alloc mem : NodeId) (idx : Int) : Option NodeId :=
  WriteLog.contents (elemWrites g alloc mem) idx

/-- How the walk from a memory state ends. -/
def chainEnd (g : Store) (mem : NodeId) : ChainEnd := (memChain g kPeaMaxChainSteps mem).2

/-! ## Graphs the snapshots are taken of -/

/-- Inputs name nodes, ids have 32 bits, and an element store has its value. -/
structure Formed (g : Store) : Prop where
  ok : g.Ok
  inRange : ∀ n, ∀ a ∈ g.inputs n, a < g.nodes.length
  small : g.nodes.length ≤ kInvalidNodeId
  arity : ∀ n, (g.node n).kind = .storeElem → 5 ≤ g.numInputs n

section Reading

variable {g : Store}

theorem input_eq_getD (hOk : g.Ok) (n : NodeId) (slot : Nat) :
    g.input n slot = (g.inputs n)[slot]?.getD kInvalidNodeId := by
  by_cases hSlot : slot < g.numInputs n
  · rw [(Store.inputs_eq_some_iff hOk n slot _).mpr ⟨hSlot, rfl⟩, Option.getD_some]
  · have hNone : (g.inputs n)[slot]? = none := by
      rw [Store.getElem?_inputs]
      exact if_neg hSlot
    have hInput : g.input n slot = kInvalidNodeId := if_neg hSlot
    rw [hNone, hInput, Option.getD_none]

theorem Formed.input_lt (hForm : Formed g) {n : NodeId} {slot : Nat}
    (hSlot : slot < g.numInputs n) : g.input n slot < g.nodes.length :=
  hForm.inRange n _
    (mem_of_getElem? ((Store.inputs_eq_some_iff hForm.ok n slot _).mpr ⟨hSlot, rfl⟩))

/-- A backward walk stays on nodes until it leaves them for good. -/
theorem Formed.memInputOf_lt (hForm : Formed g) (n : NodeId) :
    memInputOf g n = kInvalidNodeId ∨ memInputOf g n < g.nodes.length := by
  unfold memInputOf
  split
  · rename_i slot hFind
    have hSlot := mem_range.mp (mem_of_find?_eq_some hFind)
    exact .inr (hForm.input_lt hSlot)
  · exact .inl rfl

/-- A backward walk finds what the stores before the memory state leave at the index. -/
theorem elemLookup_eq (g : Store) (alloc mem : NodeId) (idx : Int) : elemLookup g alloc mem idx =
      match lastStored g alloc mem idx with
      | some v => { value := v }
      | none => { merged := decide (chainEnd g mem = .merge) } := by
  unfold elemLookup lastStored chainEnd elemWrites
  generalize kPeaMaxChainSteps = steps
  induction steps generalizing mem with
  | zero => rfl
  | succ steps ih =>
    unfold chainLookup memChain
    by_cases hOut : mem = kInvalidNodeId ∨ g.nodeCount ≤ mem
    · simp [if_pos hOut]
    by_cases hMerge : isMerge (g.node mem).kind = true
    · simp [if_neg hOut, if_pos hMerge]
    simp only [if_neg hOut, if_neg hMerge, filterMap_cons, Bool.true_eq_false,
      false_and, if_false, true_and]
    by_cases hStore : (g.node mem).kind = .storeElem ∧ g.input mem 2 = alloc
    · rw [elemWrite, if_pos hStore]
      rcases hConst : intConstant g (g.input mem 3) with _ | idx'
      · rw [if_neg (by simp), ih]
        rfl
      by_cases hIdx : idx' = idx
      · subst hIdx
        rw [if_pos ⟨hStore.1, hStore.2, rfl⟩]
        simp
      · rw [if_neg (by simp [hIdx]), ih]
        simp [WriteLog.contents_cons_of_ne (show (idx', g.input mem 4).1 ≠ idx from hIdx)]
    · rw [elemWrite, if_neg hStore, if_neg (fun h => hStore ⟨h.1, h.2.1⟩), ih]

theorem lastStored_lt (hForm : Formed g) {alloc mem : NodeId} {idx : Int} {v : NodeId}
    (h : lastStored g alloc mem idx = some v) : v < g.nodes.length := by
  have hMem := WriteLog.mem_of_contents h
  obtain ⟨n, -, hWrite⟩ := mem_filterMap.mp hMem
  unfold elemWrite at hWrite
  split at hWrite
  · rename_i hStore
    obtain ⟨idx', -, hEq⟩ := Option.map_eq_some_iff.mp hWrite
    have hValue : g.input n 4 = v := congrArg Prod.snd hEq
    have hArity := hForm.arity n hStore.1
    exact hValue ▸ hForm.input_lt (by omega)
  · cases hWrite

theorem lastStored_ne (hForm : Formed g) {alloc mem : NodeId} {idx : Int} {v : NodeId}
    (h : lastStored g alloc mem idx = some v) : v ≠ kInvalidNodeId :=
  Nat.ne_of_lt (Nat.lt_of_lt_of_le (lastStored_lt hForm h) hForm.small)

end Reading

/-! ## Graphs that grow by constants -/

/-- Nodes were made; what was there is as it was. -/
structure Grows (g g' : Store) : Prop where
  ok : g'.Ok
  length : g.nodes.length ≤ g'.nodes.length
  node : ∀ m, m < g.nodes.length → g'.node m = g.node m
  inputs : ∀ m, m < g.nodes.length → g'.inputs m = g.inputs m

section Growing

variable {g g' g'' : Store}

theorem grows_refl (hOk : g.Ok) : Grows g g where
  ok := hOk
  length := Nat.le_refl _
  node _ _ := rfl
  inputs _ _ := rfl

theorem Grows.trans (h : Grows g g') (h' : Grows g' g'') : Grows g g'' where
  ok := h'.ok
  length := Nat.le_trans h.length h'.length
  node m hm := by
    rw [h'.node m (Nat.lt_of_lt_of_le hm h.length), h.node m hm]
  inputs m hm := by
    rw [h'.inputs m (Nat.lt_of_lt_of_le hm h.length), h.inputs m hm]

theorem grows_makeRaw (hOk : g.Ok) (kind : NodeKind) (ins : List NodeId) (p p2 : BitVec 32)
    (c : BitVec 64) : Grows g (g.makeRaw kind ins p p2 c).1 where
  ok := hOk.makeRaw _ _ _ _ _
  length := by
    rw [Store.makeRaw_length]
    exact Nat.le_succ _
  node m hm := by
    rw [Store.makeRaw_node, if_neg (Nat.ne_of_lt hm)]
  inputs m hm := by
    rw [Store.makeRaw_inputs _ _ _ _ _ hOk, if_neg (Nat.ne_of_lt hm)]

theorem Grows.input (h : Grows g g') (hOk : g.Ok) {n : NodeId} (hn : n < g.nodes.length)
    (slot : Nat) : g'.input n slot = g.input n slot := by
  rw [input_eq_getD h.ok, input_eq_getD hOk, h.inputs n hn]

theorem Grows.roleOfSlot (h : Grows g g') {n : NodeId} (hn : n < g.nodes.length)
    (slot : Nat) : roleOfSlot g' n slot = roleOfSlot g n slot := by
  unfold Passes.roleOfSlot Store.numInputs
  rw [h.node n hn]

theorem Grows.memInputOf (h : Grows g g') (hOk : g.Ok) {n : NodeId}
    (hn : n < g.nodes.length) : memInputOf g' n = memInputOf g n := by
  unfold Escape.memInputOf Store.numInputs
  simp only [h.node n hn, h.roleOfSlot hn, h.input hOk hn]

theorem Grows.intConstant (h : Grows g g') {n : NodeId} (hn : n < g.nodes.length) :
    intConstant g' n = intConstant g n := by
  have hn' : n < g'.nodes.length := Nat.lt_of_lt_of_le hn h.length
  unfold Escape.intConstant Store.nodeCount
  rw [h.node n hn]
  simp [Nat.not_le.mpr hn, Nat.not_le.mpr hn']

/-- Making nodes does not change what a lookup finds. -/
theorem Grows.elemLookup (h : Grows g g') (hForm : Formed g) (alloc : NodeId) {mem : NodeId}
    (hMem : mem = kInvalidNodeId ∨ mem < g.nodes.length) (idx : Int) :
    elemLookup g' alloc mem idx = elemLookup g alloc mem idx := by
  unfold Escape.elemLookup
  generalize kPeaMaxChainSteps = steps
  induction steps generalizing mem with
  | zero => rfl
  | succ steps ih =>
    unfold chainLookup
    by_cases hBad : mem = kInvalidNodeId
    · simp [hBad]
    have hLt : mem < g.nodes.length := hMem.resolve_left hBad
    have hLt' : mem < g'.nodes.length := Nat.lt_of_lt_of_le hLt h.length
    have hIn : ¬(mem = kInvalidNodeId ∨ g.nodeCount ≤ mem) := by
      rw [not_or]
      exact ⟨hBad, Nat.not_le.mpr hLt⟩
    have hIn' : ¬(mem = kInvalidNodeId ∨ g'.nodeCount ≤ mem) := by
      rw [not_or]
      exact ⟨hBad, Nat.not_le.mpr hLt'⟩
    simp only [if_neg hIn, if_neg hIn', h.node mem hLt, h.input hForm.ok hLt,
      h.memInputOf hForm.ok hLt]
    rw [ih (hForm.memInputOf_lt mem)]
    by_cases hStore : (g.node mem).kind = .storeElem
    · have hArity := hForm.arity mem hStore
      rw [h.intConstant (hForm.input_lt (by omega))]
    · simp [hStore]

end Growing

/-! ## Default constants -/

structure IsDefault (g : Store) (ty : RawType) (v : NodeId) : Prop where
  typed : hasDefault ty = true
  lt : v < g.nodes.length
  alive : (g.node v).isDead = false
  zero : (g.node v).constValue = 0
  kind : (g.node v).kind =
    if ty = IRType.int.raw then .constantI
    else if ty = IRType.long.raw then .constantL
    else if ty = IRType.float.raw then .constantF
    else if ty = IRType.double.raw then .constantD
    else .constantNull

theorem IsDefault.grows {g g' : Store} {ty : RawType} {v : NodeId} (h : IsDefault g ty v)
    (hGrows : Grows g g') : IsDefault g' ty v where
  typed := h.typed
  lt := Nat.lt_of_lt_of_le h.lt hGrows.length
  alive := by rw [hGrows.node v h.lt]; exact h.alive
  zero := by rw [hGrows.node v h.lt]; exact h.zero
  kind := by rw [hGrows.node v h.lt]; exact h.kind

theorem defaultConstant_spec {g : Store} (hOk : g.Ok) {ty : RawType} (hTy : hasDefault ty = true) :
    Grows g (defaultConstant g ty).1 ∧
      IsDefault (defaultConstant g ty).1 ty (defaultConstant g ty).2 := by
  have hMade : ∀ kind : NodeKind, (kind = if ty = IRType.int.raw then .constantI
      else if ty = IRType.long.raw then .constantL
      else if ty = IRType.float.raw then .constantF
      else if ty = IRType.double.raw then .constantD
      else .constantNull) →
      Grows g (g.makeRaw kind [] 0 0 0).1 ∧
        IsDefault (g.makeRaw kind [] 0 0 0).1 ty (g.makeRaw kind [] 0 0 0).2 := by
    intro kind hKind
    refine ⟨grows_makeRaw hOk _ _ _ _ _, ?_⟩
    have hNode : (g.makeRaw kind [] 0 0 0).1.node (g.makeRaw kind [] 0 0 0).2 =
        { kind, edgeOffset := g.edgePool.length, numInputs := 0 } := by
      rw [Store.makeRaw_node]
      exact if_pos rfl
    constructor
    · exact hTy
    · rw [Store.makeRaw_length]
      exact Nat.lt_succ_self _
    · rw [hNode]
      show ({} : NodeFlags).has .dead = false
      decide
    · rw [hNode]
    · rw [hNode]
      exact hKind
  unfold defaultConstant
  by_cases hInt : ty = IRType.int.raw
  · rw [if_pos hInt]
    exact hMade .constantI (by rw [if_pos hInt])
  by_cases hLong : ty = IRType.long.raw
  · rw [if_neg hInt, if_pos hLong]
    exact hMade .constantL (by rw [if_neg hInt, if_pos hLong])
  by_cases hFloat : ty = IRType.float.raw
  · rw [if_neg hInt, if_neg hLong, if_pos hFloat]
    exact hMade .constantF (by rw [if_neg hInt, if_neg hLong, if_pos hFloat])
  by_cases hDouble : ty = IRType.double.raw
  · rw [if_neg hInt, if_neg hLong, if_neg hFloat, if_pos hDouble]
    exact hMade .constantD (by rw [if_neg hInt, if_neg hLong, if_neg hFloat, if_pos hDouble])
  have hRef : ty = IRType.null.raw ∨ ty = IRType.ref.raw := by
    simpa [hasDefault, hInt, hLong, hFloat, hDouble] using hTy
  rw [if_neg hInt, if_neg hLong, if_neg hFloat, if_neg hDouble, if_pos hRef]
  exact hMade .constantNull (by rw [if_neg hInt, if_neg hLong, if_neg hFloat, if_neg hDouble])

theorem defaultConstant_of_not {g : Store} {ty : RawType} (hTy : hasDefault ty = false) :
    defaultConstant g ty = (g, kInvalidNodeId) := by
  simp only [hasDefault, contains_cons, contains_nil, Bool.or_false,
    Bool.or_eq_false_iff, beq_eq_false_iff_ne] at hTy
  obtain ⟨hInt, hLong, hFloat, hDouble, hNull, hRef⟩ := hTy
  simp [defaultConstant, hInt, hLong, hFloat, hDouble, hNull, hRef]

theorem defaultConstant_grows {g : Store} (hOk : g.Ok) (ty : RawType) :
    Grows g (defaultConstant g ty).1 := by
  by_cases hTy : hasDefault ty = true
  · exact (defaultConstant_spec hOk hTy).1
  · rw [defaultConstant_of_not (Bool.not_eq_true _ ▸ hTy)]
    exact grows_refl hOk

theorem defaultConstant_valid {g : Store} (hOk : g.Ok) {ty : RawType}
    (hValid : (defaultConstant g ty).2 ≠ kInvalidNodeId) :
    IsDefault (defaultConstant g ty).1 ty (defaultConstant g ty).2 := by
  by_cases hTy : hasDefault ty = true
  · exact (defaultConstant_spec hOk hTy).2
  · rw [defaultConstant_of_not (Bool.not_eq_true _ ▸ hTy)] at hValid
    exact absurd rfl hValid

/-- The cached constants are defaults of their types. -/
def CacheOk (s : FsRun) : Prop :=
  ∀ ty n, s.defCache.lookup ty = some n → n ≠ kInvalidNodeId → IsDefault s.g ty n

theorem defOf_spec {s : FsRun} (hOk : s.g.Ok) (hCache : CacheOk s) (ty : RawType) :
    Grows s.g (defOf s ty).1.g ∧ CacheOk (defOf s ty).1 ∧
      ((defOf s ty).2 ≠ kInvalidNodeId → IsDefault (defOf s ty).1.g ty (defOf s ty).2) := by
  unfold defOf
  dsimp only
  by_cases hMiss : (s.defCache.lookup ty).getD kInvalidNodeId = kInvalidNodeId
  · rw [if_pos hMiss]
    have hGrows := defaultConstant_grows hOk ty
    refine ⟨hGrows, ?_, defaultConstant_valid hOk⟩
    intro ty' n hLookup hValid
    rw [lookup_cons] at hLookup
    by_cases hTy : ty' = ty
    · subst hTy
      simp only [beq_self_eq_true, Option.some_inj] at hLookup
      subst hLookup
      exact defaultConstant_valid hOk hValid
    · rw [beq_false_of_ne hTy] at hLookup
      exact (hCache ty' n hLookup hValid).grows hGrows
  · rw [if_neg hMiss]
    refine ⟨grows_refl hOk, hCache, fun _ => ?_⟩
    rcases hLookup : s.defCache.lookup ty with _ | n
    · rw [hLookup] at hMiss
      exact absurd rfl hMiss
    · rw [hLookup] at hMiss
      exact hCache ty n hLookup hMiss

/-! ## Filling the list -/

/-- The value the array has at an index: the last one stored, or the default. -/
def IsContents (g g' : Store) (alloc mem : NodeId) (ty : RawType) (idx : Int) (v : NodeId) : Prop :=
  lastStored g alloc mem idx = some v ∨ (lastStored g alloc mem idx = none ∧ IsDefault g' ty v)

/-- The slots of the indices in `done` hold their values, the others nothing yet. -/
def Filled (g g' : Store) (alloc mem : NodeId) (ty : RawType) (done : Int → Prop)
    (elems : List NodeId) : Prop :=
  ∀ (i : Nat) v, elems[i]? = some v →
    (done i → IsContents g g' alloc mem ty i v ∧ v ≠ kInvalidNodeId) ∧
      (¬done i → v = kInvalidNodeId)

section Filling

variable {g g' g'' : Store} {alloc mem : NodeId} {ty : RawType} {done : Int → Prop}
  {elems : List NodeId}

theorem IsContents.grows {idx : Int} {v : NodeId}
    (h : IsContents g g' alloc mem ty idx v) (hGrows : Grows g' g'') :
    IsContents g g'' alloc mem ty idx v := by
  rcases h with hStored | ⟨hNone, hDefault⟩
  · exact .inl hStored
  · exact .inr ⟨hNone, hDefault.grows hGrows⟩

theorem Filled.grows (h : Filled g g' alloc mem ty done elems) (hGrows : Grows g' g'') :
    Filled g g'' alloc mem ty done elems := by
  intro i v hv
  obtain ⟨hDone, hOther⟩ := h i v hv
  exact ⟨fun hi => ⟨(hDone hi).1.grows hGrows, (hDone hi).2⟩, hOther⟩

theorem filled_replicate (n : Nat) :
    Filled g g' alloc mem ty (fun _ => False) (replicate n kInvalidNodeId) := by
  intro i v hv
  refine ⟨False.elim, fun _ => ?_⟩
  exact eq_of_mem_replicate (mem_of_getElem? hv)

theorem Filled.set (h : Filled g g' alloc mem ty done elems) {idx : Int} {v : NodeId}
    {slot : Nat} (hSlot : (slot : Int) = idx) (hContents : IsContents g g' alloc mem ty idx v)
    (hValid : v ≠ kInvalidNodeId) :
    Filled g g' alloc mem ty (fun j => done j ∨ j = idx) (elems.set slot v) := by
  intro i w hw
  rw [getElem?_set] at hw
  by_cases hi : slot = i
  · subst hi
    rw [if_pos rfl] at hw
    split at hw
    · cases hw
      refine ⟨fun _ => ⟨hSlot ▸ hContents, hValid⟩, fun hNot => absurd (.inr hSlot) hNot⟩
    · cases hw
  · rw [if_neg hi] at hw
    obtain ⟨hDone, hOther⟩ := h i w hw
    have hNe : (i : Int) ≠ idx := by omega
    exact ⟨fun hIn => hDone (hIn.resolve_right hNe), fun hNot => hOther fun hIn => hNot (.inl hIn)⟩

/-- An index without a slot leaves the list as it is. -/
theorem Filled.skip (h : Filled g g' alloc mem ty done elems) {idx : Int}
    (hOut : ∀ i : Nat, i < elems.length → (i : Int) ≠ idx) :
    Filled g g' alloc mem ty (fun j => done j ∨ j = idx) elems := by
  intro i v hv
  obtain ⟨hDone, hOther⟩ := h i v hv
  have hNe := hOut i (List.getElem?_eq_some_iff.mp hv).1
  exact ⟨fun hIn => hDone (hIn.resolve_right hNe), fun hNot => hOther fun hIn => hNot (.inl hIn)⟩

theorem Filled.congr {done' : Int → Prop} (h : Filled g g' alloc mem ty done elems)
    (hIff : ∀ j, done j ↔ done' j) : Filled g g' alloc mem ty done' elems := by
  intro i v hv
  obtain ⟨hDone, hOther⟩ := h i v hv
  exact ⟨fun hi => hDone ((hIff i).mpr hi), fun hi => hOther fun hj => hi ((hIff i).mp hj)⟩

end Filling

/-- A 32-bit index. -/
def IsIndex (idx : Int) : Prop := -2 ^ 31 ≤ idx ∧ idx < 2 ^ 31

theorem asSize_of_nonneg {idx : Int} (hIdx : IsIndex idx) (hNonneg : 0 ≤ idx) :
    (asSize idx : Int) = idx := by
  unfold asSize IsIndex at *
  omega

/-- The position of a negative index lies outside every list. -/
theorem le_asSize_of_neg {idx : Int} (hIdx : IsIndex idx) (hNeg : idx < 0) :
    2 ^ 31 ≤ asSize idx := by
  unfold asSize IsIndex at *
  omega

section Loops

variable {g : Store} {alloc mem : NodeId} {ty : RawType} {reads : List Int}

/-- Is the index part of the state the listing resolves? -/
def Included (g : Store) (alloc mem : NodeId) (reads : List Int) (idx : Int) : Prop :=
  lastStored g alloc mem idx ≠ none ∨ idx ∈ reads

theorem elemLookup_value {idx : Int} (h : (elemLookup g alloc mem idx).value ≠ kInvalidNodeId) :
    lastStored g alloc mem idx = some (elemLookup g alloc mem idx).value := by
  rw [elemLookup_eq] at h ⊢
  rcases hStored : lastStored g alloc mem idx with _ | v
  · rw [hStored] at h
    exact absurd rfl h
  · rfl

theorem elemLookup_none (hForm : Formed g) {idx : Int}
    (h : (elemLookup g alloc mem idx).value = kInvalidNodeId) :
    lastStored g alloc mem idx = none := by
  rw [elemLookup_eq] at h
  rcases hStored : lastStored g alloc mem idx with _ | v
  · rfl
  · rw [hStored] at h
    exact absurd h (lastStored_ne hForm hStored)

/-- A lookup that is not merged knows what is stored, up to the step cap. -/
theorem elemLookup_known {idx : Int} (h : (elemLookup g alloc mem idx).merged = false) :
    lastStored g alloc mem idx ≠ none ∨ chainEnd g mem ≠ .merge := by
  rw [elemLookup_eq] at h
  rcases hStored : lastStored g alloc mem idx with _ | v
  · rw [hStored] at h
    exact .inr (of_decide_eq_false h)
  · exact .inl (Option.some_ne_none v)

theorem maxIncluded_spec (hForm : Formed g) {indices : List Int} {maxIdx result : Int}
    (h : maxIncluded g alloc mem reads indices maxIdx = some result) :
    maxIdx ≤ result ∧
      (∀ idx ∈ indices, lastStored g alloc mem idx ≠ none ∨ chainEnd g mem ≠ .merge) ∧
      (∀ idx ∈ indices, Included g alloc mem reads idx → idx ≤ result) ∧
      (result = maxIdx ∨ (result ∈ indices ∧ Included g alloc mem reads result)) := by
  induction indices generalizing maxIdx with
  | nil =>
    rw [maxIncluded, Option.some_inj] at h
    subst h
    simp
  | cons idx rest ih =>
    rw [maxIncluded] at h
    split at h
    · cases h
    rename_i hMerged
    have hKnown := elemLookup_known (Bool.not_eq_true _ ▸ hMerged)
    obtain ⟨hLe, hRest, hBound, hTight⟩ := ih h
    have hIncluded : (elemLookup g alloc mem idx).value ≠ kInvalidNodeId ∨ idx ∈ reads ↔
        Included g alloc mem reads idx := by
      refine or_congr_left ?_
      constructor
      · intro hValue
        rw [elemLookup_value hValue]
        exact Option.some_ne_none _
      · intro hStored hValue
        exact hStored (elemLookup_none hForm hValue)
    refine ⟨?_, ?_, ?_, ?_⟩
    · split at hLe
      · omega
      · exact hLe
    · intro j hj
      rcases mem_cons.mp hj with rfl | hj
      · exact hKnown
      · exact hRest j hj
    · intro j hj hIn
      rcases mem_cons.mp hj with rfl | hj
      · rw [if_pos (hIncluded.mpr hIn)] at hLe
        omega
      · exact hBound j hj hIn
    · rcases hTight with hEq | ⟨hMem, hIn⟩
      · by_cases hThis : Included g alloc mem reads idx
        · rw [if_pos (hIncluded.mpr hThis)] at hEq
          by_cases hMax : maxIdx ≤ idx
          · have hResult : result = idx := by omega
            exact .inr ⟨hResult ▸ mem_cons_self, hResult ▸ hThis⟩
          · exact .inl (by omega)
        · rw [if_neg (fun hc => hThis (hIncluded.mp hc))] at hEq
          exact .inl hEq
      · exact .inr ⟨mem_cons_of_mem _ hMem, hIn⟩

theorem listedValue_spec (hForm : Formed g) {s : FsRun} (hGrows : Grows g s.g)
    (hCache : CacheOk s) (hMem : mem = kInvalidNodeId ∨ mem < g.nodes.length) (ty : RawType)
    (reads : List Int) (idx : Int) :
    Grows s.g (listedValue s alloc mem ty reads idx).1.g ∧
      CacheOk (listedValue s alloc mem ty reads idx).1 ∧
      ((listedValue s alloc mem ty reads idx).2 ≠ kInvalidNodeId →
        IsContents g (listedValue s alloc mem ty reads idx).1.g alloc mem ty idx
          (listedValue s alloc mem ty reads idx).2) := by
  unfold listedValue
  dsimp only
  rw [hGrows.elemLookup hForm alloc hMem]
  split
  · rename_i hValue
    exact ⟨grows_refl hGrows.ok, hCache, fun _ => .inl (elemLookup_value hValue)⟩
  rename_i hValue
  have hNone := elemLookup_none hForm (not_not.mp hValue)
  split
  · obtain ⟨hGrows', hCache', hDefault⟩ := defOf_spec hGrows.ok hCache ty
    exact ⟨hGrows', hCache', fun hValid => .inr ⟨hNone, hDefault hValid⟩⟩
  · exact ⟨grows_refl hGrows.ok, hCache, fun hBad => absurd rfl hBad⟩

theorem fillListed_spec (hForm : Formed g) {indices : List Int}
    (hMem : mem = kInvalidNodeId ∨ mem < g.nodes.length)
    (hIndex : ∀ idx ∈ indices, IsIndex idx) {done : Int → Prop} {s s' : FsRun}
    {elems elems' : List NodeId} (hGrows : Grows g s.g) (hCache : CacheOk s)
    (hSize : elems.length ≤ 2 ^ 31) (hFilled : Filled g s.g alloc mem ty done elems)
    (h : fillListed alloc mem ty reads indices s elems = (s', some elems')) :
    Grows g s'.g ∧ CacheOk s' ∧ elems'.length = elems.length ∧
      Filled g s'.g alloc mem ty (fun j => done j ∨ j ∈ indices) elems' := by
  induction indices generalizing s elems done with
  | nil =>
    rw [fillListed, Prod.mk.injEq, Option.some_inj] at h
    obtain ⟨rfl, rfl⟩ := h
    exact ⟨hGrows, hCache, rfl, hFilled.congr (by simp)⟩
  | cons idx rest ih =>
    have hThis : IsIndex idx := hIndex idx mem_cons_self
    have hRest := fun j hj => hIndex j (mem_cons_of_mem _ hj)
    have hDone : ∀ j, (done j ∨ j = idx) ∨ j ∈ rest ↔ done j ∨ j ∈ idx :: rest := by
      intro j
      rw [mem_cons, or_assoc]
    rw [fillListed] at h
    split at h
    · -- the index has no slot at this memory state
      rename_i hOut
      have hSkip : ∀ i : Nat, i < elems.length → (i : Int) ≠ idx := by
        intro i hi hEq
        have hPos := asSize_of_nonneg hThis (by omega)
        omega
      obtain ⟨hG, hC, hLen, hF⟩ := ih hRest hGrows hCache hSize (hFilled.skip hSkip) h
      exact ⟨hG, hC, hLen, hF.congr hDone⟩
    · rename_i hIn
      dsimp only at h
      obtain ⟨hMade, hCache', hValue⟩ :=
        listedValue_spec hForm hGrows hCache hMem ty reads idx
      split at h
      · cases h
      rename_i hUsable
      rw [unusable, Bool.or_eq_true, Bool.or_eq_true, beq_iff_eq, not_or, not_or] at hUsable
      have hNonneg : 0 ≤ idx := by
        by_contra hNeg
        have hFar := le_asSize_of_neg hThis (by omega)
        omega
      have hSet := (hFilled.grows hMade).set (asSize_of_nonneg hThis hNonneg)
        (hValue hUsable.1.1) hUsable.1.1
      obtain ⟨hG, hC, hLen, hF⟩ := ih hRest (hGrows.trans hMade) hCache'
        (by rw [length_set]; exact hSize) hSet h
      exact ⟨hG, hC, hLen.trans (length_set ..), hF.congr hDone⟩

theorem fillSnapshot_spec (hForm : Formed g) {listed : List Int}
    (hMem : mem = kInvalidNodeId ∨ mem < g.nodes.length) {done : Int → Prop} {h h' : Store}
    {elems : List NodeId} {r : Snapshot (List NodeId)}
    (hSlots : ∀ idx ∈ listed, IsIndex idx ∧ 0 ≤ idx ∧ idx < elems.length)
    (hGrows : Grows g h) (hFilled : Filled g h alloc mem ty done elems)
    (hRun : fillSnapshot alloc mem ty listed h elems = (h', r)) :
    r ≠ .undefined ∧ ∀ elems', r = .taken elems' → Grows g h' ∧ elems'.length = elems.length ∧
        (∀ idx ∈ listed, lastStored g alloc mem idx ≠ none ∨ chainEnd g mem ≠ .merge) ∧
        Filled g h' alloc mem ty (fun j => done j ∨ j ∈ listed) elems' := by
  induction listed generalizing h elems done with
  | nil =>
    rw [fillSnapshot, Prod.mk.injEq] at hRun
    obtain ⟨rfl, rfl⟩ := hRun
    refine ⟨by simp, ?_⟩
    intro elems' hEq
    cases hEq
    exact ⟨hGrows, rfl, by simp, hFilled.congr (by simp)⟩
  | cons idx rest ih =>
    obtain ⟨hIndex, hNonneg, hLt⟩ := hSlots idx mem_cons_self
    have hPos := asSize_of_nonneg hIndex hNonneg
    have hDone : ∀ j, (done j ∨ j = idx) ∨ j ∈ rest ↔ done j ∨ j ∈ idx :: rest := by
      intro j
      rw [mem_cons, or_assoc]
    rw [fillSnapshot, hGrows.elemLookup hForm alloc hMem] at hRun
    dsimp only at hRun
    split at hRun
    · rw [Prod.mk.injEq] at hRun
      obtain ⟨-, rfl⟩ := hRun
      exact ⟨by simp, fun _ hBad => by cases hBad⟩
    rename_i hMerged
    have hKnown := elemLookup_known (Bool.not_eq_true _ ▸ hMerged)
    -- the value with the graph it is looked up or made in
    obtain ⟨h₁, v, hPair, hMade, hValue⟩ : ∃ h₁ v,
        (if (elemLookup g alloc mem idx).value ≠ kInvalidNodeId then
          (h, (elemLookup g alloc mem idx).value) else defaultConstant h ty) = (h₁, v) ∧
        Grows h h₁ ∧ (v ≠ kInvalidNodeId → IsContents g h₁ alloc mem ty idx v) := by
      by_cases hFound : (elemLookup g alloc mem idx).value ≠ kInvalidNodeId
      · rw [if_pos hFound]
        exact ⟨_, _, rfl, grows_refl hGrows.ok, fun _ => .inl (elemLookup_value hFound)⟩
      · rw [if_neg hFound]
        have hNone := elemLookup_none hForm (not_not.mp hFound)
        exact ⟨_, _, rfl, defaultConstant_grows hGrows.ok ty,
          fun hValid => .inr ⟨hNone, defaultConstant_valid hGrows.ok hValid⟩⟩
    rw [hPair] at hRun
    dsimp only at hRun
    split at hRun
    · rw [Prod.mk.injEq] at hRun
      obtain ⟨-, rfl⟩ := hRun
      exact ⟨by simp, fun _ hBad => by cases hBad⟩
    rename_i hUsable
    rw [unusable, Bool.or_eq_true, Bool.or_eq_true, beq_iff_eq, not_or, not_or] at hUsable
    have hRoom : asSize idx < elems.length := by omega
    rw [if_pos hRoom] at hRun
    have hSet := (hFilled.grows hMade).set hPos (hValue hUsable.1.1) hUsable.1.1
    obtain ⟨hDefined, hTaken⟩ := ih (by
      intro j hj
      rw [length_set]
      exact hSlots j (mem_cons_of_mem _ hj)) (hGrows.trans hMade) hSet hRun
    refine ⟨hDefined, ?_⟩
    intro elems' hEq
    obtain ⟨hG, hLen, hAll, hF⟩ := hTaken elems' hEq
    refine ⟨hG, hLen.trans (length_set ..), ?_, hF.congr hDone⟩
    intro j hj
    rcases mem_cons.mp hj with rfl | hj
    · exact hKnown
    · exact hAll j hj

/-- Slots without a value get the default, the others keep theirs. -/
theorem padElems_spec (hTy : hasDefault ty = true) {elems elems' : List NodeId} {h h' : Store}
    (hOk : h.Ok) (hRun : padElems ty elems h = (h', elems')) :
    Grows h h' ∧ elems'.length = elems.length ∧
      ∀ (i : Nat) w, elems'[i]? = some w → ∃ v, elems[i]? = some v ∧
        ((v ≠ kInvalidNodeId ∧ w = v) ∨ (v = kInvalidNodeId ∧ IsDefault h' ty w)) := by
  induction elems generalizing h elems' with
  | nil =>
    rw [padElems, Prod.mk.injEq] at hRun
    obtain ⟨rfl, rfl⟩ := hRun
    exact ⟨grows_refl hOk, rfl, by simp⟩
  | cons v rest ih =>
    rw [padElems] at hRun
    obtain ⟨h₁, v₁, hPair, hMade, hHead⟩ : ∃ h₁ v₁,
        (if v = kInvalidNodeId then defaultConstant h ty else (h, v)) = (h₁, v₁) ∧
        Grows h h₁ ∧
        ((v ≠ kInvalidNodeId ∧ v₁ = v) ∨ (v = kInvalidNodeId ∧ IsDefault h₁ ty v₁)) := by
      by_cases hEmpty : v = kInvalidNodeId
      · rw [if_pos hEmpty]
        obtain ⟨hGrows, hDefault⟩ := defaultConstant_spec hOk hTy
        exact ⟨_, _, rfl, hGrows, .inr ⟨hEmpty, hDefault⟩⟩
      · rw [if_neg hEmpty]
        exact ⟨_, _, rfl, grows_refl hOk, .inl ⟨hEmpty, rfl⟩⟩
    rw [hPair] at hRun
    dsimp only at hRun
    rcases hRest : padElems ty rest h₁ with ⟨h₂, rest'⟩
    rw [hRest, Prod.mk.injEq] at hRun
    obtain ⟨rfl, rfl⟩ := hRun
    obtain ⟨hGrows, hLen, hElems⟩ := ih hMade.ok hRest
    refine ⟨hMade.trans hGrows, by rw [length_cons, length_cons, hLen], ?_⟩
    intro i w hw
    cases i with
    | zero =>
      rw [getElem?_cons_zero, Option.some_inj] at hw
      subst hw
      refine ⟨v, getElem?_cons_zero, ?_⟩
      rcases hHead with hKept | ⟨hEmpty, hDefault⟩
      · exact .inl hKept
      · exact .inr ⟨hEmpty, hDefault.grows hGrows⟩
    | succ i =>
      rw [getElem?_cons_succ] at hw
      obtain ⟨u, hu, hCase⟩ := hElems i w hw
      exact ⟨u, by rw [getElem?_cons_succ]; exact hu, hCase⟩

end Loops

end B2Compiler.Passes.Escape
