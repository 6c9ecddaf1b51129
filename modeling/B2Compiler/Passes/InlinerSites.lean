import B2Compiler.Passes.Inliner
import B2Compiler.Passes.InlinerReturns

/-!
# What a site does

A site that passes its checks is not too deep and its callee is not on the stack.  When the
graph with the body built in has no cycle of type questions, the removal of the call comes
back and so does the verification: the site is refused, or the run fails closed, or the
body stands in the nodes that were added.
-/

namespace B2Compiler.Passes

open Ir List Store

section Extends

variable {g g' : Store}

theorem extends_refl (hOk : g.Ok) : Extends g g := (quieter_refl hOk).toExtends

theorem extends_step (hOk : g.Ok) (c : Call) : Extends g (g.step c) where
  ok := hOk.step c
  length := by
    cases recordStep g c with
    | keep c hNodes _ _ => rw [hNodes]
    | append c nd hNodes _ _ _ _ _ =>
      rw [hNodes, length_append]
      exact Nat.le_add_right _ _
    | change c n f hNodes _ _ _ | kill n _ hNodes _ _ | replace o w _ _ hNodes _ _ =>
      rw [hNodes, length_modify]
    | tick hNodes _ _ => rw [hNodes]
  kind m hm := by
    have hModify : ∀ {h : Store} {n : NodeId} {f : NodeRec → NodeRec},
        h.nodes = g.nodes.modify n f → (∀ nd, (f nd).kind = nd.kind) →
        (h.node m).kind = (g.node m).kind := by
      intro h n f hNodes hf
      rw [node, node, hNodes, getD_eq_getElem?_getD, getD_eq_getElem?_getD,
        getElem?_modify, getElem?_eq_getElem hm]
      by_cases hn : n = m
      · simp [hn, hf]
      · simp [hn]
    have hSame : ∀ {h : Store}, h.nodes = g.nodes → (h.node m).kind = (g.node m).kind := by
      intro h hNodes
      rw [node, node, hNodes]
    cases recordStep g c with
    | keep c hNodes _ _ => exact hSame hNodes
    | append c nd hNodes _ _ _ _ _ =>
      rw [node, node, hNodes, getD_eq_getElem?_getD, getElem?_append_left hm, getD_eq_getElem?_getD]
    | change c n f hNodes hf _ _ => exact hModify hNodes fun nd => (hf nd).kind
    | kill n _ hNodes _ _ | replace o w _ _ hNodes _ _ => exact hModify hNodes fun _ => rfl
    | tick hNodes _ _ => exact hSame hNodes

theorem extends_run (hOk : g.Ok) (calls : List Call) : Extends g (g.run calls) := by
  induction calls generalizing g with
  | nil => exact extends_refl hOk
  | cons c calls ih => exact (extends_step hOk c).trans (ih (hOk.step c))

theorem Anchored.onGraph {s : PassRun} (h : Anchored s) {g : Store} (hExtends : Extends s.g g)
    (t : PassTelemetry) (b : Budget) : Anchored { s with g, t, b } :=
  h.step hExtends (fun _ => .inl) (fun _ => .inl) t b

end Extends

namespace Inline

theorem refuseIf_bind_eq_ok {α : Type} {bad : Bool} {reason : String}
    {f : Unit → Except String α} {a : α} :
    (refuseIf bad reason >>= f) = .ok a ↔ bad = false ∧ f () = .ok a := by
  cases bad <;> simp [refuseIf, bind, Except.bind, pure, Except.pure]

theorem bind_eq_ok {α β : Type} {x : Except String α} {f : α → Except String β} {b : β} :
    (x >>= f) = .ok b ↔ ∃ a, x = .ok a ∧ f a = .ok b := by
  cases x <;> simp [bind, Except.bind]

variable {src : InlineCalleeSource} {cfg : InlineConfig} {memo : InlineMemo}
variable {call : NodeId} {depth : Nat} {stack : List Nat}

/-- The recursion control: a site that passes is not too deep, and the method it names is
not on the stack. -/
theorem siteChecks_ok {g : Store} {plan : SitePlan}
    (h : siteChecks src cfg memo g call depth stack = .ok plan) :
    depth ≤ cfg.maxDepth ∧ plan.method ∉ stack ∧ plan.method = (g.node call).payload.toNat := by
  unfold siteChecks at h
  dsimp only at h
  rw [refuseIf_bind_eq_ok] at h
  obtain ⟨-, h⟩ := h
  rw [bind_eq_ok] at h
  obtain ⟨guard, -, h⟩ := h
  split at h
  · cases h
  rename_i method m hResolve
  have hMethod : method = (g.node call).payload.toNat := by
    unfold resolve at hResolve
    obtain ⟨m', -, hEq⟩ := Option.map_eq_some_iff.mp hResolve
    exact (Prod.mk.inj hEq).1.symm
  simp only [refuseIf_bind_eq_ok] at h
  obtain ⟨-, -, -, hDepth, hStack, h⟩ := h
  split at h
  · cases h
  simp only [refuseIf_bind_eq_ok] at h
  obtain ⟨-, -, -, -, -, -, -, -, -, h⟩ := h
  cases h
  have hNotMem : method ∉ stack := by
    intro hMem
    rw [contains_iff_mem.mpr hMem] at hStack
    cases hStack
  exact ⟨Nat.le_of_not_lt (of_decide_eq_false hDepth), hNotMem, hMethod⟩

theorem extends_rewireUsers {exit : InlineExit} {uses : List Use} {g : Store} (hOk : g.Ok) :
    Extends g (rewireUsers exit uses g).1 := by
  have hSet : ∀ {g : Store}, g.Ok → ∀ n slot v, Extends g (g.setInput n slot v) := by
    intro g hOk n slot v
    exact extends_step hOk (.setInput n slot v)
  induction uses generalizing g with
  | nil => exact extends_refl hOk
  | cons u rest ih =>
    unfold rewireUsers
    split
    · exact ih hOk
    split
    · exact (hSet hOk _ _ _).trans (ih (hSet hOk _ _ _).ok)
    · exact (hSet hOk _ _ _).trans (ih (hSet hOk _ _ _).ok)
    · split
      · exact extends_refl hOk
      · exact (hSet hOk _ _ _).trans (ih (hSet hOk _ _ _).ok)
    all_goals exact ih hOk

theorem extends_rewired {g g' rewired : Store} (hExtends : Extends g g')
    {body merge : List Call} {exit : InlineExit} {uses : List Use} {done : Bool}
    (h : rewireUsers exit uses ((g'.run body).run merge) = (rewired, done)) :
    Extends g rewired := by
  have hBuilt := hExtends.trans (extends_run hExtends.ok body)
  have hMerged := hBuilt.trans (extends_run hBuilt.ok merge)
  have hRewired : Extends g (rewireUsers exit uses ((g'.run body).run merge)).1 :=
    hMerged.trans (extends_rewireUsers hMerged.ok)
  rw [h] at hRewired
  exact hRewired

theorem extends_buildIn {plan : SitePlan} {g g' : Store} {nodesAdded : Nat} (hOk : g.Ok)
    (h : buildIn src plan call g = .ok (g', nodesAdded)) : Extends g g' := by
  have hGuard : Extends g (installGuard src plan call g).1 := by
    unfold installGuard
    dsimp only
    split
    · exact extends_refl hOk
    · exact extends_run hOk _
  unfold buildIn at h
  dsimp only at h
  split at h
  · cases h
  split at h
  · cases h
  split at h
  · rename_i rewired hRewire
    cases h
    exact extends_rewired hGuard hRewire
  · cases h

theorem comes_killSite {s : PassRun} (hCalm : Calm s) (cont : SiteCont) (call : NodeId) :
    Comes (killSite cont call) s fun _ _ => True := by
  refine comes_bind (comes_kill hCalm cont.node) ?_
  intro gone s₁ hCalm₁ _ _
  split
  · exact comes_pure hCalm₁ trivial
  refine comes_bind (comes_kill hCalm₁ cont.except) ?_
  intro gone s₂ hCalm₂ _ _
  split
  · exact comes_pure hCalm₂ trivial
  exact comes_kill hCalm₂ call

/-- The decisions for the bodies that were built in. -/
def InlineMemo.inlinedDecisions (memo : InlineMemo) : List InlineDecision :=
  memo.decisions.filter InlineDecision.inlined

theorem inlinedDecisions_append (memo : InlineMemo) (d : InlineDecision) :
    InlineMemo.inlinedDecisions { memo with decisions := memo.decisions ++ [d] } =
      memo.inlinedDecisions ++ if d.inlined = true then [d] else [] := by
  rw [InlineMemo.inlinedDecisions, filter_append]
  rcases hInlined : d.inlined with _ | _ <;> simp [InlineMemo.inlinedDecisions, hInlined]

/-- When the body of the callee stands in the graph and the users of the call are rewired,
no node reaches itself through questions about types. -/
def Settled (src : InlineCalleeSource) (cfg : InlineConfig) (call : NodeId) (depth : Nat)
    (stack : List Nat) (s : Inlining InlineMemo) : Prop :=
  ∀ plan g nodesAdded, siteChecks src cfg s.memo s.run.g call depth stack = .ok plan →
    buildIn src plan call s.run.g = .ok (g, nodesAdded) → Answered g

/-- What becomes of a site. -/
def SiteSpec (cfg : InlineConfig) (call : NodeId) (depth : Nat) (stack : List Nat)
    (s : Inlining InlineMemo) : SiteOutcome InlineMemo → Prop
  | .refused memo => memo.inlinedDecisions = s.memo.inlinedDecisions
  | .broken _ memo _ => memo = s.memo
  | .built run memo callee =>
    Calm run ∧ s.run.g.nodeCount ≤ run.g.nodeCount ∧ depth ≤ cfg.maxDepth ∧ callee ∉ stack ∧
      ∃ d : InlineDecision, memo.inlinedDecisions = s.memo.inlinedDecisions ++ [d] ∧
        d.call = call ∧ d.target.toNat = callee ∧ d.depth = depth

theorem inlineSite_comes {s : Inlining InlineMemo} (hAnchored : Anchored s.run)
    (hSettled : Settled src cfg call depth stack s) :
    ∃ o, inlineSite src cfg call depth stack s.run s.memo = some o ∧
      SiteSpec cfg call depth stack s o := by
  unfold inlineSite
  dsimp only
  rcases hChecks : siteChecks src cfg s.memo s.run.g call depth stack with reason | plan
  · refine ⟨_, rfl, ?_⟩
    exact (inlinedDecisions_append s.memo _).trans (append_nil _)
  rcases hBuild : buildIn src plan call s.run.g with ⟨g, message⟩ | ⟨g, nodesAdded⟩
  · simp only [hBuild]
    exact ⟨_, rfl, rfl⟩
  obtain ⟨hDepth, hStack, hMethod⟩ := siteChecks_ok hChecks
  have hBuilt := extends_buildIn hAnchored.ok hBuild
  have hCalm : Calm { s.run with
      g, t := {}, b := { limit := cfg.maxCalleeNodes * 4 + 64 } } :=
    ⟨hAnchored.onGraph hBuilt _ _, hSettled plan g nodesAdded hChecks hBuild⟩
  obtain ⟨done, after, hKill, hAfter, hQuieter, -⟩ := comes_killSite hCalm plan.cont call
  simp only [hBuild, hKill]
  cases done with
  | false => exact ⟨_, rfl, rfl⟩
  | true =>
    refine ⟨_, rfl, ?_, ?_, hDepth, hStack, _, inlinedDecisions_append s.memo _, rfl,
      hMethod.symm, rfl⟩
    · exact hAfter.step (quieter_refl hAfter.ok) (fun _ => .inl) (fun _ => .inl) _ _
    · exact Nat.le_trans hBuilt.length hQuieter.length

end Inline

end B2Compiler.Passes
