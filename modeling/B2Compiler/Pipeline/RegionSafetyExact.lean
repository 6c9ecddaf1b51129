import B2Compiler.Pipeline.RegionScan

/-!
# Where the region safety checks do not end

The checks end exactly when no memory node has so many inputs that the walk over them starts
over for ever.
-/

namespace B2Compiler.Pipeline

open Ir Bool
open Lib.BinarySearch

variable {g : Store} {r : Region}

/-! ## The answers of the checks -/

/-- The checks before the scan of check 5 pass, and there is something to scan. -/
def comesToScan (g : Store) (r : Region) : Bool :=
  check1_ControlEntry g r && check2_ControlExits g r && check3_DanglingUses g r &&
    check4_ExceptionEdges g r && !(memoryNodes g r).isEmpty && memoryBoundary g r

theorem scanExternal_of_check5 {fuel : Nat} (hSome : (memoryNodes g r).isEmpty = false)
    (hBoundary : memoryBoundary g r = true) :
    check5_MemoryState g r fuel =
      match scanExternal g r fuel (memoryNodes g r) Ir.kInvalidNodeId with
      | none => none
      | some .unsafeHere => some false
      | some (.walked ext) => some (ext != Ir.kInvalidNodeId) := by
  rw [check5_MemoryState, hSome, hBoundary]
  rfl

/-- A passed check 5 has walked over every memory node. -/
theorem short_of_check5 {fuel : Nat} (h : check5_MemoryState g r fuel = some true) :
    ∀ n ∈ memoryNodes g r, ¬Long g n := by
  intro n hn
  have hSome : (memoryNodes g r).isEmpty = false := by
    rw [List.isEmpty_eq_false_iff_exists_mem]
    exact ⟨n, hn⟩
  have hBoundary : memoryBoundary g r = true := by
    by_contra hNot
    rw [check5_MemoryState, hSome, eq_false_iff.mpr hNot] at h
    cases h
  rw [scanExternal_of_check5 hSome hBoundary] at h
  split at h
  · cases h
  · cases h
  · rename_i ext hScan
    exact ((scanExternal_walked (.inl rfl) hScan).2.1 n hn).1

theorem check5_ends (h : comesToScan g r = true → Answered g r (memoryNodes g r))
    (hFirst : (check1_ControlEntry g r && check2_ControlExits g r && check3_DanglingUses g r &&
      check4_ExceptionEdges g r) = true) : ∃ ok, check5_MemoryState g r 256 = some ok := by
  by_cases hSome : (memoryNodes g r).isEmpty = true
  · rw [check5_MemoryState, if_pos hSome]
    exact ⟨_, rfl⟩
  rw [not_eq_true] at hSome
  by_cases hBoundary : memoryBoundary g r = true
  · rw [scanExternal_of_check5 hSome hBoundary]
    have hScan : comesToScan g r = true := by
      rw [comesToScan, hFirst, hSome, hBoundary]
      rfl
    obtain ⟨w, hw⟩ := scanExternal_ends (.inl rfl) (h hScan)
    rw [hw]
    cases w <;> exact ⟨_, rfl⟩
  · rw [check5_MemoryState, hSome, eq_false_iff.mpr hBoundary]
    exact ⟨_, rfl⟩

theorem firstFailure_cons (count number : Nat) (verdict : RegionSafety) (answer : Option Bool)
    (rest : List (RegionSafety × Option Bool)) :
    firstFailure count ((verdict, answer) :: rest) number =
      match answer with
      | none => none
      | some false => some ⟨verdict, number, count⟩
      | some true => firstFailure count rest (number + 1) := rfl

/-- A check that ends hands over to the ones behind it when it passes. -/
theorem firstFailure_ends {count number : Nat} {verdict : RegionSafety} {ok : Bool}
    {rest : List (RegionSafety × Option Bool)}
    (hRest : ok = true → ∃ res, firstFailure count rest (number + 1) = some res) :
    ∃ res, firstFailure count ((verdict, some ok) :: rest) number = some res := by
  rw [firstFailure_cons]
  cases ok with
  | false => exact ⟨_, rfl⟩
  | true => exact hRest rfl

/-- A node with too many inputs keeps the scan going when no input up to it answers. -/
theorem checkRegionSafety_none {pre post : List NodeId} {n : NodeId}
    (hScan : comesToScan g r = true) (hNodes : memoryNodes g r = pre ++ n :: post)
    (hLong : Long g n) (hQuiet : ∀ m ∈ pre ++ [n], ¬Answers g r m) (fuel : Nat) :
    checkRegionSafety g r fuel = none := by
  have hNone : scanExternal g r fuel (pre ++ n :: post) Ir.kInvalidNodeId = none :=
    scanExternal_none (.inl rfl) hLong hQuiet fuel
  rw [← hNodes] at hNone
  simp only [comesToScan, and_eq_true, not_eq_true'] at hScan
  obtain ⟨⟨⟨⟨⟨h₁, h₂⟩, h₃⟩, h₄⟩, hSome⟩, hBoundary⟩ := hScan
  have hCheck : check5_MemoryState g r fuel = none := by
    rw [scanExternal_of_check5 hSome hBoundary, hNone]
  rw [checkRegionSafety, regionChecks, firstFailure_cons, h₁, firstFailure_cons, h₂,
    firstFailure_cons, h₃, firstFailure_cons, h₄, firstFailure_cons, hCheck]

/-- The checks end with a verdict exactly when the scan, where it takes place, comes to an
unsafe memory input before it has to count more than 255 inputs. -/
theorem checkRegionSafety_ends_iff (g : Store) (r : Region) :
    (∃ fuel res, checkRegionSafety g r fuel = some res) ↔
      (comesToScan g r = true → Answered g r (memoryNodes g r)) := by
  constructor
  · rintro ⟨fuel, res, hRun⟩ hScan pre n post hEq hLong
    by_contra hQuiet
    rw [checkRegionSafety_none hScan hEq hLong
      (fun m hm hAnswers => hQuiet ⟨m, hm, hAnswers⟩) fuel] at hRun
    cases hRun
  · intro h
    refine ⟨256, ?_⟩
    unfold checkRegionSafety regionChecks
    apply firstFailure_ends
    intro h₁
    apply firstFailure_ends
    intro h₂
    apply firstFailure_ends
    intro h₃
    apply firstFailure_ends
    intro h₄
    obtain ⟨ok₅, h₅⟩ := check5_ends h (by rw [h₁, h₂, h₃, h₄]; rfl)
    rw [h₅]
    apply firstFailure_ends
    intro hPass
    rw [hPass] at h₅
    obtain ⟨ok₆, h₆⟩ := scanMemoryInputs_ends (short_of_check5 h₅)
    rw [check6_EffectOrdering, h₆]
    apply firstFailure_ends
    intro _
    apply firstFailure_ends
    intro _
    apply firstFailure_ends
    intro _
    apply firstFailure_ends
    intro _
    apply firstFailure_ends
    intro _
    exact ⟨_, rfl⟩

/-! ### A call with too many inputs -/

/-- A region around a call with 253 arguments and its frame state: 256 inputs. -/
def longCall : Store :=
  Store.fresh.run [.constantI 7, .make .region [0] 0 0, .makeFrameState 0 0 [] 0 [],
    .make .callStatic ([2, 0] ++ List.replicate 253 1 ++ [3]) 1 0, .make .callExcept [4] 0 0,
    .make .returnNode [2] 0 0]

def longCallRegion : Region where
  entryControl := 2
  exitControls := [6]
  entryValues := [1]
  exitValues := [2, 4]
  entryMemory := 0
  exitMemory := 6
  exceptionExit := 5
  nodes := [2, 4]

/-- The arguments are no memory states, so nothing stops the walk over them. -/
theorem longCall_never_ends :
    ¬∃ fuel res, checkRegionSafety longCall longCallRegion fuel = some res := by
  have hChecks : comesToScan longCall longCallRegion = true ∧
      memoryNodes longCall longCallRegion = [4] ∧ 256 ≤ longCall.numInputs 4 ∧
      ∀ slot < 256, strayMemory longCall longCallRegion 4 slot = false := by
    decide +kernel
  obtain ⟨hScan, hNodes, hLong, hCalm⟩ := hChecks
  rintro ⟨fuel, res, hRun⟩
  have hQuiet : ∀ m ∈ [] ++ [4], ¬Answers longCall longCallRegion m := by
    rintro m hm ⟨slot, hSlot, -, hStray⟩
    rw [List.mem_singleton.mp hm, hCalm slot hSlot] at hStray
    cases hStray
  rw [checkRegionSafety_none hScan hNodes hLong hQuiet fuel] at hRun
  cases hRun

end B2Compiler.Pipeline
