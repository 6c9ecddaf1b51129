import B2Compiler.Passes.InlinerRuns

/-!
# When the inliner comes back

A callee that hands an argument back leaves the argument in the place of the call.  If the
call was the back edge of a loop-header phi that is the argument itself, the phi now asks
itself for its type, and removing the call asks the phi.
-/

namespace B2Compiler.Passes

open Ir Nat Store
open Lib.Fuel
open Relation (ReflTransGen)

/-! ## Checking the sites of a run -/

section Check

variable {σ : Type} (considerVirtual : Bool)
variable (site : NodeId → Nat → List Nat → PassRun → σ → Option (SiteOutcome σ))

def checkSites (check : Walk σ → Bool) : Nat → Walk σ → Bool
  | 0, _ => false
  | fuel + 1, w =>
    if w.id < w.limit ∧ w.state.ok = true then
      if PassedOver considerVirtual w.state w.id then
        checkSites check fuel { w with id := w.id + 1 }
      else check w && match tryInlineSite site w.id w.depth w.stack w.state with
        | none => true
        | some (inlined, s) =>
          (match inlined with
            | some callee =>
              checkSites check fuel ⟨w.state.run.g.nodeCount, s.run.g.nodeCount,
                w.depth + 1, w.stack ++ [callee], s⟩
            | none => true) &&
          match processBody considerVirtual site fuel w.state.run.g.nodeCount w.depth w.stack
              inlined s with
            | none => false
            | some s' => checkSites check fuel { w with id := w.id + 1, state := s' }
    else true

variable {considerVirtual site} {check : Walk σ → Bool}

theorem checkSites_atSite {fuel : Nat} {w : Walk σ} (hSite : w.AtSite considerVirtual)
    (h : checkSites considerVirtual site check fuel w = true) :
    check w = true := by
  cases fuel with
  | zero => cases h
  | succ fuel =>
    unfold checkSites at h
    rw [if_pos ⟨hSite.more, hSite.ok⟩, if_neg hSite.site, Bool.and_eq_true] at h
    exact h.1

theorem checkSites_step {fuel : Nat} {w w' : Walk σ} (hStep : Walk.Step considerVirtual site w w')
    (h : checkSites considerVirtual site check fuel w = true) :
    ∃ fuel', checkSites considerVirtual site check fuel' w' = true := by
  cases fuel with
  | zero => cases h
  | succ fuel =>
    refine ⟨fuel, ?_⟩
    unfold checkSites at h
    cases hStep with
    | pass hMore hOk hPassed =>
      rw [if_pos ⟨hMore, hOk⟩, if_pos hPassed] at h
      exact h
    | body hSite hTry =>
      rw [if_pos ⟨hSite.more, hSite.ok⟩, if_neg hSite.site, hTry] at h
      simp only [Bool.and_eq_true] at h
      exact h.2.1
    | next hSite hTry hBody =>
      rw [if_pos ⟨hSite.more, hSite.ok⟩, if_neg hSite.site, hTry] at h
      simp only [Bool.and_eq_true] at h
      obtain ⟨-, -, h⟩ := h
      split at h
      · cases h
      · rename_i s' hRun
        rw [(Returns.unique (processBody_steady _ _ _ _ _) hBody ⟨fuel, hRun⟩)]
        exact h

theorem checkSites_leads {fuel : Nat} {w w' : Walk σ}
    (h : checkSites considerVirtual site check fuel w = true)
    (hLeads : Walk.Leads considerVirtual site w w') (hSite : w'.AtSite considerVirtual) :
    check w' = true := by
  induction hLeads using ReflTransGen.head_induction_on generalizing fuel with
  | refl => exact checkSites_atSite hSite h
  | head hStep _ ih =>
    obtain ⟨fuel', h'⟩ := checkSites_step hStep h
    exact ih h'

/-- A walk whose first site does not come back does not end, by induction on the fuel. -/
theorem processRange_endless {id limit : NodeId} {depth : Nat} {stack : List Nat}
    {s : Inlining σ} {k : Nat} (hOk : s.ok = true) (hMore : id + k < limit)
    (hPassed : ∀ i < k, PassedOver considerVirtual s (id + i))
    (hSite : ¬ PassedOver considerVirtual s (id + k))
    (hTry : tryInlineSite site (id + k) depth stack s = none) (n : Nat) :
    processRange considerVirtual site n id limit depth stack s = none := by
  induction n generalizing id k with
  | zero => rfl
  | succ n ih =>
    have hHere : id < limit := lt_of_le_of_lt (le_add_right id k) hMore
    rw [processRange_succ, if_pos ⟨hHere, hOk⟩]
    cases k with
    | zero =>
      have hCall : ¬ PassedOver considerVirtual s id := hSite
      have hNone : tryInlineSite site id depth stack s = none := hTry
      rw [if_neg hCall, hNone]
      rfl
    | succ k =>
      have hFirst : PassedOver considerVirtual s id := hPassed 0 (succ_pos k)
      rw [if_pos hFirst]
      have hAdd : ∀ i, id + 1 + i = id + (i + 1) := fun i => add_right_comm id 1 i
      exact ih (hAdd k ▸ hMore) (fun i hi => hAdd i ▸ hPassed (i + 1) (succ_lt_succ hi))
        (hAdd k ▸ hSite) (hAdd k ▸ hTry)

end Check

namespace Inline

theorem answered_of_types {g : Store}
    (h : ∀ n ∈ List.range g.image.nodeCount, (g.image.typeOf n).isSome = true) :
    Answered g := by
  intro n hCycle
  obtain ⟨m, hFirst, -⟩ := Relation.TransGen.head'_iff.mp hCycle
  exact Image.not_isSome_of_cycle hCycle _ (h n (List.mem_range.mpr (Image.asks_lt hFirst)))

/-- Every node of the graph with the body built in has a type. -/
def settledCheck (src : InlineCalleeSource) (cfg : InlineConfig) (w : Walk InlineMemo) : Bool :=
  match siteChecks src cfg w.state.memo w.state.run.g w.id w.depth w.stack with
  | .error _ => true
  | .ok plan =>
    match buildIn src plan w.id w.state.run.g with
    | .error _ => true
    | .ok (g, _) => (List.range g.image.nodeCount).all fun n => (g.image.typeOf n).isSome

theorem settled_of_check {src : InlineCalleeSource} {cfg : InlineConfig} {w : Walk InlineMemo}
    (h : settledCheck src cfg w = true) : Settled src cfg w.id w.depth w.stack w.state := by
  intro plan g nodesAdded hChecks hBuild
  unfold settledCheck at h
  simp only [hChecks, hBuild] at h
  exact answered_of_types (List.all_eq_true.mp h)

/-- The condition on a run can be checked along the run. -/
theorem allSettled_of_check {src : InlineCalleeSource} {cfg : InlineConfig}
    {considerVirtual : Bool} {fuel : Nat} {w : Walk InlineMemo}
    (h : checkSites considerVirtual (inlineSite src cfg) (settledCheck src cfg) fuel w = true) :
    AllSettled src cfg considerVirtual w :=
  fun _ hLeads hSite => settled_of_check (checkSites_leads h hLeads hSite)

/-- `int id(int x) { return x; }`. -/
def identityMethod : Rbc.Method where
  name := "id"
  descriptor := "(I)I"
  flags := 0x0008
  numRegs := 1
  numLocals := 1
  code := [⟨.iload, 0, 0, 0, 0⟩, ⟨.ireturn, 0, 0, 0, 0⟩]

/-- Built into a graph the method is the undefined value of its register, and it leaves
through the control and the memory it was entered with. -/
def identitySource : InlineCalleeSource where
  program := { methods := [{}, identityMethod] }
  classId := fun _ => 1
  trialOf := fun _ => { ok := true, nodes := 4, returns := 1 }
  buildInlineBody := fun _ w _ =>
    ([.make .undef [] 0 0],
      { ok := true, nodesAdded := 1
        exits := [⟨w.entryCtrl, w.entryMem, w.args.headD kInvalidNodeId⟩] })

/-- `return id(n);` -/
def straightCall : List Call :=
  [.parameter 0 .int, .make .undef [] 0 0, .makeFrameState 0 1 [1, 1] kInvalidFrameState [],
    .make .callStatic [0, 0, 1, 3] 1 1, .make .callExcept [4] 0 0, .make .unwind [5, 5] 0 0,
    .make .returnNode [4, 4] 0 0]

/-- `int x = 5; while (n != 0) { x = id(x); n--; } return x;` -/
def loopCall : List Call :=
  [.parameter 0 .int, .make .undef [] 0 0, .constantI 5, .make .loopBegin [0] 0 0,
    .make .phi [4, 0] 0 0, .make .phi [4, 1] 0 0, .make .phi [4, 3] 0 0,
    .constantI 0, .make .eqI [6, 8] 0 0, .make .ifNode [4, 9] 0 0, .make .ifTrue [10] 0 0,
    .make .ifFalse [10] 0 0, .makeFrameState 0 5 [6, 7, 7] kInvalidFrameState [],
    .make .callStatic [12, 5, 7, 13] 1 1, .make .callExcept [14] 0 0,
    .make .unwind [15, 15] 0 0, .constantI 0xFFFFFFFF, .make .addI [6, 17] 0 0,
    .make .loopEnd [14] 0 0, .make .returnNode [11, 7] 0 0, .appendInput 4 19,
    .appendInput 5 14, .appendInput 6 18, .appendInput 7 14]

/-- A run over a graph made by calls ends, with or without a diagnostic, when no site it
comes to leaves a cycle of type questions behind; then no method is inlined into itself on
any chain of bodies, and no chain is longer than the cap. -/
theorem runInlining_ends (src : InlineCalleeSource) (cfg : InlineConfig) (calls : List Call)
    (hSettled : cfg.enabled = true →
      AllSettled src cfg cfg.profile.isSome (rootWalk (fresh.run calls))) :
    ∃ n s, (∀ m, n ≤ m → runInlining src cfg m (fresh.run calls) = some s) ∧
      (∀ b ∈ inlinedBodies s, b.depth ≤ cfg.maxDepth) ∧
      ∀ chain, NestedIn s chain →
        (chain.map InlinedBody.method).Nodup ∧ chain.length ≤ cfg.maxDepth := by
  have hFramed : Framed cfg [] (rootWalk (fresh.run calls)).state :=
    ⟨rfl, fun _ => nofun, fun _ => nofun, fun _ => nofun, fun _ => nofun⟩
  have hEnd : ∃ n s log, Framed cfg log s ∧
      ∀ m, n ≤ m → runInlining src cfg m (fresh.run calls) = some s := by
    unfold runInlining Passes.runInlining
    rcases hEnabled : cfg.enabled with _ | _
    · exact ⟨0, _, [], hFramed, fun _ _ => rfl⟩
    have hStanding : Standing [] (rootWalk (fresh.run calls)).state :=
      ⟨anchored_root calls, rfl, fun _ => nofun⟩
    have hPlaced : Placed [] (rootWalk (fresh.run calls)) :=
      ⟨rfl, List.nodup_nil, le_refl _, fun _ => nofun⟩
    obtain ⟨s, ⟨n, hn⟩, log, hLog, -⟩ := walk_ends (le_add_left _ 1) hFramed
      (fun _ => hStanding) hPlaced (hSettled hEnabled)
    exact ⟨n, s, log, hLog, fun m hnm => processRange_steady _ _ _ _ _ n m s hnm hn⟩
  obtain ⟨n, s, log, hLog, hRun⟩ := hEnd
  refine ⟨n, s, hRun, ?_, fun chain => hLog.bounds⟩
  intro b hb
  rw [← hLog.bodies] at hb
  obtain ⟨r, hr, rfl⟩ := List.mem_map.mp hb
  exact (hLog.depth r hr).2

/-- A call in front of a return: one body is built in. -/
theorem runInlining_ends_straightCall : (∃ n s, (∀ m, n ≤ m →
        runInlining identitySource {} m (fresh.run straightCall) = some s) ∧
      (∀ b ∈ inlinedBodies s, b.depth ≤ 3) ∧
      ∀ chain, NestedIn s chain → (chain.map InlinedBody.method).Nodup ∧ chain.length ≤ 3) ∧
      (runInlining identitySource {} 20 (fresh.run straightCall)).map inlinedBodies =
        some [⟨4, 1, 8, 14, 1⟩] := by
  refine ⟨runInlining_ends identitySource {} straightCall fun _ => ?_, by decide +kernel⟩
  have hCheck : checkSites false (inlineSite identitySource {}) (settledCheck identitySource {})
      20 (rootWalk (fresh.run straightCall)) = true := by decide +kernel
  exact allSettled_of_check hCheck

/-- The call in the loop is a site, and its removal does not come back. -/
theorem not_runInlining_ends : (fresh.run loopCall).Accepted ∧
      ¬ ∃ n s, runInlining identitySource {} n (fresh.run loopCall) = some s := by
  refine ⟨by decide +kernel, ?_⟩
  rintro ⟨n, s, h⟩
  have hEndless : runInlining identitySource {} n (fresh.run loopCall) = none :=
    processRange_endless (k := 13) rfl (by decide +kernel) (by decide +kernel)
      (by decide +kernel) (by decide +kernel) n
  rw [hEndless] at h
  cases h

end Inline

end B2Compiler.Passes
