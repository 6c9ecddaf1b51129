import B2Compiler.Lib.LinearChain
import B2Compiler.Pipeline.RegionSafetyExact

/-!
# Regions that can be replaced as a unit

The memory nodes of such a region are one chain, entered from the entry memory and left at its
end to the exit memory.  The checks look at the inputs of the memory nodes only, so a safe
verdict settles where the chain is entered.  What the readers of a memory state do, and whether
a memory node hangs on the chain at all, it leaves open; both are stated here edge by edge.
-/

namespace B2Compiler.Pipeline

open Ir List Bool
open Lib.BinarySearch
open Lib.LinearChain
open Relation

variable {g : Store} {r : Region}

/-- The live node `u` reads the memory state `v`. -/
def MemEdge (g : Store) (v u : NodeId) : Prop :=
  skipped g u = false ∧ ∃ slot < g.numInputs u,
    slotRole (g.node u).kind slot = .mem ∧ g.input u slot = v

instance (g : Store) (v u : NodeId) : Decidable (MemEdge g v u) :=
  inferInstanceAs (Decidable (_ ∧ _))

/-- One chain, entered from the entry memory and left from its end to the exit memory. -/
def Replaceable (g : Store) (r : Region) : Prop :=
  ∃ chain, IsChainOf (MemEdge g) r.entryMemory (memoryNodes g r).toFinset chain ∧
    ∀ v ∈ r.nodes, ∀ u ∉ r.nodes, MemEdge g v u → chain.getLast? = some v ∧ u = r.exitMemory

/-- What the checks leave open. -/
structure OrderlyReaders (g : Store) (r : Region) : Prop where
  /-- A memory node reads a state, and not that of another kind of node in the region. -/
  reads : ∀ u ∈ memoryNodes g r, ∃ v < g.nodeCount, MemEdge g v u ∧
    (v ∈ r.nodes → v ∈ memoryNodes g r)
  /-- No two of them read the same state. -/
  alone : ∀ v, ∀ u ∈ memoryNodes g r, ∀ w ∈ memoryNodes g r, MemEdge g v u → MemEdge g v w → u = w
  /-- They do not read one another in a circle. -/
  acyclic : ∀ u, ¬TransGen (Inside (MemEdge g) (memoryNodes g r).toFinset) u u
  /-- The exit memory alone reads a state of the region from outside, one not read inside. -/
  exits : ∀ v ∈ r.nodes, ∀ u ∉ r.nodes, MemEdge g v u →
    u = r.exitMemory ∧ v ∈ memoryNodes g r ∧ ∀ w ∈ memoryNodes g r, ¬MemEdge g v w

/-- No kind has a memory input but in the second slot. -/
theorem slot_eq_one {k : NodeKind} {slot : Nat} (h : slotRole k slot = .mem) : slot = 1 := by
  have hRow : ((info k).variadicRole.getD .none != .mem) = true ∧ ((info k).roles.length ≤ 8) ∧
      ∀ i < 8, (info k).roles[i]? = some .mem → i = 1 := by
    cases k <;> decide
  obtain ⟨hVariadic, hLength, hFixed⟩ := hRow
  unfold slotRole at h
  split at h
  · rename_i role hRole
    subst h
    have hIn := (List.getElem?_eq_some_iff.mp hRole).1
    exact hFixed slot (by omega) hRole
  · rw [h] at hVariadic
    exact absurd hVariadic (by decide)

theorem MemEdge.unique {v w u : NodeId} (hv : MemEdge g v u) (hw : MemEdge g w u) : v = w := by
  obtain ⟨-, slot, -, hRole, rfl⟩ := hv
  obtain ⟨-, slot', -, hRole', rfl⟩ := hw
  rw [slot_eq_one hRole, slot_eq_one hRole']

theorem lt_of_mem_memoryNodes {u : NodeId} (h : u ∈ memoryNodes g r) :
    u ∈ r.nodes ∧ u < g.nodeCount := by
  rw [memoryNodes, mem_filter, and_eq_true, not_eq_true', skipped,
    or_eq_false_iff, decide_eq_false_iff_not] at h
  exact ⟨h.1, Nat.lt_of_not_le h.2.1.1⟩

theorem firstFailure_safe {count number : Nat} {checks : List (RegionSafety × Option Bool)}
    {res : RegionSafetyResult} (hNames : ∀ c ∈ checks, c.1 ≠ .safe)
    (h : firstFailure count checks number = some res) (hSafe : res.verdict = .safe) :
    ∀ c ∈ checks, c.2 = some true := by
  induction checks generalizing number with
  | nil => exact fun c hc => absurd hc not_mem_nil
  | cons c checks ih =>
    obtain ⟨verdict, answer⟩ := c
    rw [firstFailure_cons] at h
    rcases answer with _ | _ | _
    · cases h
    · injection h with h
      subst h
      exact absurd hSafe (hNames _ mem_cons_self)
    · intro c hc
      rcases mem_cons.mp hc with rfl | hc
      · rfl
      · exact ih (fun d hd => hNames d (mem_cons_of_mem _ hd)) h c hc

theorem check5_of_safe {fuel : Nat} {res : RegionSafetyResult}
    (h : checkRegionSafety g r fuel = some res) (hSafe : res.verdict = .safe) :
    check5_MemoryState g r fuel = some true := by
  have hNames : ∀ c ∈ regionChecks g r fuel, c.1 ≠ .safe := by simp [regionChecks]
  exact firstFailure_safe hNames h hSafe
    (.unsafeMemoryState, check5_MemoryState g r fuel) (by simp [regionChecks])

/-- What check 5 settles: the entry is outside, and a memory state from outside is the
entry. -/
structure Entered (g : Store) (r : Region) : Prop where
  outside : r.entryMemory ∉ r.nodes
  inRange : r.entryMemory < g.nodeCount
  only : ∀ v < g.nodeCount, ∀ u ∈ memoryNodes g r, MemEdge g v u → v ∉ r.nodes → v = r.entryMemory

theorem entered_of_check5 {fuel : Nat} (h : check5_MemoryState g r fuel = some true)
    (hSome : (memoryNodes g r).isEmpty = false) : Entered g r := by
  have hBoundary : memoryBoundary g r = true := by
    by_contra hNot
    rw [check5_MemoryState, hSome, eq_false_iff.mpr hNot] at h
    cases h
  have hWalked : ∃ ext,
      scanExternal g r fuel (memoryNodes g r) Ir.kInvalidNodeId = some (.walked ext) := by
    rw [scanExternal_of_check5 hSome hBoundary] at h
    split at h
    · cases h
    · cases h
    · rename_i ext hScan
      exact ⟨ext, hScan⟩
  obtain ⟨ext, hScan⟩ := hWalked
  have hCalm := (scanExternal_walked (.inl rfl) hScan).2.1
  simp only [memoryBoundary, and_eq_true, not_eq_true', decide_eq_true_eq] at hBoundary
  obtain ⟨⟨⟨⟨⟨-, hRange⟩, hOutside⟩, -⟩, -⟩, -⟩ := hBoundary
  refine ⟨?_, hRange, ?_⟩
  · intro hIn
    rw [inRegion, (binarySearch_iff r.sorted _).mpr hIn] at hOutside
    cases hOutside
  rintro v hv u hu ⟨-, slot, hSlot, hRole, rfl⟩ hNot
  have hStray := (hCalm u hu).2 slot hSlot
  have hOut : inRegion r.nodes (g.input u slot) = false := by
    rw [eq_false_iff]
    exact fun hFound => hNot ((binarySearch_iff r.sorted _).mp hFound)
  simpa [strayMemory, externalMemory, hRole, hv, hOut] using hStray

theorem strung_of_orderlyReaders (hEntered : Entered g r) (h : OrderlyReaders g r) :
    Strung (MemEdge g) r.entryMemory (memoryNodes g r).toFinset := by
  refine ⟨?_, fun u _ v w hv hw => hv.unique hw, ?_, h.acyclic⟩
  · intro u hu
    have hu := mem_toFinset.mp hu
    obtain ⟨v, hRange, hEdge, hInside⟩ := h.reads u hu
    refine ⟨v, hEdge, ?_⟩
    by_cases hIn : v ∈ r.nodes
    · exact .inr (mem_toFinset.mpr (hInside hIn))
    · exact .inl (hEntered.only v hRange u hu hEdge hIn)
  · intro v u hu w hw
    exact h.alone v u (mem_toFinset.mp hu) w (mem_toFinset.mp hw)

theorem orderlyReaders_of_strung (hEntered : Entered g r)
    (h : Strung (MemEdge g) r.entryMemory (memoryNodes g r).toFinset)
    (hExits : ∀ v ∈ r.nodes, ∀ u ∉ r.nodes, MemEdge g v u →
      u = r.exitMemory ∧ v ∈ memoryNodes g r ∧ ∀ w ∈ memoryNodes g r, ¬MemEdge g v w) :
    OrderlyReaders g r := by
  refine ⟨?_, ?_, h.acyclic, hExits⟩
  · intro u hu
    obtain ⟨v, hEdge, hEntry | hMem⟩ := h.pred u (mem_toFinset.mpr hu)
    · refine ⟨v, hEntry ▸ hEntered.inRange, hEdge, fun hIn => ?_⟩
      rw [hEntry] at hIn
      exact absurd hIn hEntered.outside
    · have hMem := mem_toFinset.mp hMem
      exact ⟨v, (lt_of_mem_memoryNodes hMem).2, hEdge, fun _ => hMem⟩
  · intro v u hu w hw
    exact h.alone v u (mem_toFinset.mpr hu) w (mem_toFinset.mpr hw)

/-- The memory nodes of a region the checks call safe are a unit exactly when their readers
are orderly. -/
theorem safe_replaceable_iff {fuel : Nat} {res : RegionSafetyResult}
    (h : checkRegionSafety g r fuel = some res) (hSafe : res.verdict = .safe) :
    Replaceable g r ↔ OrderlyReaders g r := by
  have hCheck := check5_of_safe h hSafe
  by_cases hSome : (memoryNodes g r).isEmpty = true
  · have hNil := isEmpty_iff.mp hSome
    have hNone : ∀ n, n ∉ memoryNodes g r := by
      rw [hNil]
      exact fun n => not_mem_nil
    constructor
    · rintro ⟨chain, hChain, hExits⟩
      refine ⟨fun u hu => absurd hu (hNone u), fun _ u hu => absurd hu (hNone u), ?_, ?_⟩
      · intro u hCycle
        obtain ⟨b, hb, -⟩ := TransGen.head'_iff.mp hCycle
        exact hNone u (mem_toFinset.mp hb.1)
      · intro v hv u hu hEdge
        have hLast := mem_of_getLast? (hExits v hv u hu hEdge).1
        exact absurd (mem_toFinset.mp ((hChain.mem_iff v).mp hLast)) (hNone v)
    · intro hReaders
      refine ⟨[], ⟨nodup_nil, ?_, ?_⟩, ?_⟩
      · intro n
        rw [mem_toFinset]
        exact iff_of_false not_mem_nil (hNone n)
      · exact fun v u hu => absurd (mem_toFinset.mp hu) (hNone u)
      · exact fun v hv u hu hEdge => absurd (hReaders.exits v hv u hu hEdge).2.1 (hNone v)
  · rw [not_eq_true] at hSome
    have hEntered := entered_of_check5 hCheck hSome
    have hEntry : r.entryMemory ∉ (memoryNodes g r).toFinset := by
      rw [mem_toFinset]
      exact fun hMem => hEntered.outside (lt_of_mem_memoryNodes hMem).1
    have hLast : ∀ {chain}, IsChainOf (MemEdge g) r.entryMemory (memoryNodes g r).toFinset chain →
        ∀ v, chain.getLast? = some v ↔
          v ∈ memoryNodes g r ∧ ∀ w ∈ memoryNodes g r, ¬MemEdge g v w := by
      intro chain hChain v
      simpa only [mem_toFinset] using hChain.getLast?_iff hEntry v
    constructor
    · rintro ⟨chain, hChain, hExits⟩
      apply orderlyReaders_of_strung hEntered (hChain.strung hEntry)
      intro v hv u hu hEdge
      obtain ⟨hEnd, hExit⟩ := hExits v hv u hu hEdge
      exact ⟨hExit, (hLast hChain v).mp hEnd⟩
    · intro hReaders
      obtain ⟨chain, hChain⟩ := (strung_of_orderlyReaders hEntered hReaders).exists_chain hEntry
      refine ⟨chain, hChain, fun v hv u hu hEdge => ?_⟩
      obtain ⟨hExit, hEnd⟩ := hReaders.exits v hv u hu hEdge
      exact ⟨(hLast hChain v).mpr hEnd, hExit⟩

/-! ### One store, and two on the same state -/

/-- The first store writes behind the start, the barrier reads what it leaves. -/
def oneStore : Store :=
  Store.fresh.run [.constantI 7, .make .region [0] 0 0, .make .storeStatic [2, 0, 1] 1 0,
    .make .memBar [2, 3] 0 0]

def oneStoreRegion : Region where
  entryControl := 2
  exitControls := [3]
  entryValues := [1]
  exitValues := [2, 3]
  entryMemory := 0
  exitMemory := 4
  nodes := [2, 3]

theorem oneStore_replaceable : Replaceable oneStore oneStoreRegion := by
  have hChecks : checkRegionSafety oneStore oneStoreRegion 256 = some ⟨.safe, 0, 2⟩ ∧
      memoryNodes oneStore oneStoreRegion = [3] ∧ oneStore.nodeCount = 5 ∧
      MemEdge oneStore 0 3 ∧ ¬MemEdge oneStore 3 3 ∧
      ∀ u < 5, u ∉ oneStoreRegion.nodes → ∀ v ∈ oneStoreRegion.nodes, MemEdge oneStore v u →
        u = 4 ∧ v = 3 := by
    decide +kernel
  obtain ⟨hRun, hNodes, hCount, hEdge, hLoop, hExits⟩ := hChecks
  rw [safe_replaceable_iff hRun rfl]
  refine ⟨?_, ?_, ?_, ?_⟩
  · intro u hu
    rw [hNodes, mem_singleton] at hu
    exact ⟨0, by rw [hCount]; decide, hu ▸ hEdge, fun hIn => absurd hIn (by decide)⟩
  · intro v u hu w hw _ _
    rw [hNodes, mem_singleton] at hu hw
    rw [hu, hw]
  · intro u hCycle
    obtain ⟨b, hb, -⟩ := TransGen.head'_iff.mp hCycle
    obtain ⟨hu, hb, hEdge⟩ := hb
    rw [mem_toFinset, hNodes, mem_singleton] at hu hb
    rw [hu, hb] at hEdge
    exact hLoop hEdge
  · intro v hv u hu hEdge
    have hRange : u < 5 := by
      have hLive := hEdge.1
      rw [skipped, or_eq_false_iff, decide_eq_false_iff_not, hCount] at hLive
      exact Nat.lt_of_not_le hLive.1
    obtain ⟨hExit, hLast⟩ := hExits u hRange hu v hv hEdge
    refine ⟨hExit, by rw [hNodes, hLast]; exact mem_singleton_self 3, fun w hw => ?_⟩
    rw [hNodes, mem_singleton] at hw
    rw [hLast, hw]
    exact hLoop

/-- Two stores write behind the start; each passes for the only one. -/
def twoStores : Store :=
  Store.fresh.run [.constantI 7, .make .region [0] 0 0, .make .storeStatic [2, 0, 1] 1 0,
    .make .storeStatic [2, 0, 1] 2 0, .make .memBar [2, 3] 0 0]

def twoStoresRegion : Region where
  entryControl := 2
  exitControls := [3]
  entryValues := [1]
  exitValues := [2, 3]
  entryMemory := 0
  exitMemory := 5
  nodes := [2, 3, 4]

theorem not_safe_replaceable : ¬∀ (g : Store) (r : Region) (fuel : Nat) (res : RegionSafetyResult),
      checkRegionSafety g r fuel = some res → res.verdict = .safe → Replaceable g r := by
  have hChecks : checkRegionSafety twoStores twoStoresRegion 256 = some ⟨.safe, 0, 3⟩ ∧
      memoryNodes twoStores twoStoresRegion = [3, 4] ∧ MemEdge twoStores 0 3 ∧
      MemEdge twoStores 0 4 := by
    decide +kernel
  obtain ⟨hRun, hNodes, hFirst, hSecond⟩ := hChecks
  intro hAll
  obtain ⟨chain, hChain, -⟩ := hAll _ _ _ _ hRun rfl
  rw [hNodes] at hChain
  have hSame := (hChain.strung (by decide)).alone 0 3 (by decide) 4 (by decide) hFirst hSecond
  exact absurd hSame (by decide)

end B2Compiler.Pipeline
