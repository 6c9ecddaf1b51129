import B2Compiler.Passes.BuilderDominators

/-!
# Dominator tree, back edges and natural loops

Candidates that a round leaves as they are make up the dominator tree of the reachable
blocks.  The walks of `dominates` then tell the back edges from the forward edges, and the
backward search from the back edges of a header finds its natural loop.
-/

namespace B2Compiler.Passes.Builder

open Relation List
open Lib
open Lib.Fuel
open Lib.Marking

/-- The candidates are the immediate dominators of the reachable blocks: each strict
dominator of a block dominates its candidate, which is one itself. -/
structure IsDominatorTree (g : Cfg) (idom : Nat → Option Nat) : Prop where
  atEntry : idom 0 = some 0
  immediate : ∀ b, g.Reachable b → b ≠ 0 → ∃ d, idom b = some d ∧ d ≠ b ∧ g.Dominates d b ∧
      ∀ a, a ≠ b → g.Dominates a b → g.Dominates a d
  unreachable : ∀ b, ¬g.Reachable b → idom b = none

namespace Cfg

variable (g : Cfg)

/-- An edge from a reachable block to a block that dominates it. -/
def BackEdge (b t : Nat) : Prop := g.Reachable b ∧ g.Edge b t ∧ g.Dominates t b

/-- The other edges from reachable blocks. -/
def ForwardEdge (b t : Nat) : Prop := g.Reachable b ∧ g.Edge b t ∧ ¬g.Dominates t b

/-- The header, and what leads to the source of one of its back edges without a visit of
the header. -/
def NaturalLoop (h x : Nat) : Prop :=
  x = h ∨ (x ≠ h ∧ g.Reachable x ∧ ∃ b, g.BackEdge b h ∧ ReflTransGen (Around g.step h) x b)

end Cfg

variable {g : Cfg} {pos : Nat → Nat} {idom : Nat → Option Nat} {reachable : Nat → Bool}
  {rest : List Nat}

/-! ## The dominator tree -/

theorem candidates_initial (g : Cfg) (pos : Nat → Nat) :
    Candidates g pos (Function.update (fun _ => none) 0 (some 0)) := by
  refine ⟨Forest.initial g.step 0 pos, ?_⟩
  intro b d h
  by_cases hb : b = 0
  · rw [hb]
    exact .refl
  · rw [Function.update_of_ne hb] at h
    cases h

/-- The rounds end with stable candidates, or with the budget exceeded. -/
theorem dominators_returns (hReach : ∀ b, reachable b = true ↔ g.Reachable b)
    (hSweep : Sweepable g pos rest) (ticks : Nat) :
    ∃ s, Returns (fun n => dominators pos (preds g reachable) (0 :: rest) ticks n) s ∧
      Candidates g pos s.idom ∧
      (kBuildBudget < s.ticks ∨ Settled g reachable s.idom rest) := by
  obtain ⟨s, hs, ⟨hCand, hSettled⟩, hEnd⟩ := whileLoop_returns
    (fun s : Doms => s.changed && ok s.ticks) (round pos (preds g reachable) rest)
    (fun s => Candidates g pos s.idom ∧ (s.changed = false → Settled g reachable s.idom rest))
    (fun s => (kBuildBudget + 1 - s.ticks) + if s.changed then 1 else 0)
    (fun s => round_steady pos (preds g reachable) rest s)
    (fun s hInv hCond => by
      obtain ⟨s', hs', hCand, hTicks, hSettled⟩ := round_returns hReach hSweep s hInv.1
      refine ⟨s', hs', ⟨hCand, hSettled⟩, ?_⟩
      rw [Bool.and_eq_true] at hCond
      have hOk : s.ticks ≤ kBuildBudget := by simpa [ok] using hCond.2
      rw [hTicks, if_pos hCond.1]
      cases hChanged : s'.changed with
      | false =>
        show kBuildBudget + 1 - (s.ticks + rest.length) + 0 < _
        omega
      | true =>
        have hPos : 0 < rest.length := by
          rw [length_pos_iff]
          intro hNil
          obtain ⟨n, hn⟩ := hs'
          subst hNil
          cases hn
          cases hChanged
        show kBuildBudget + 1 - (s.ticks + rest.length) + 1 < _
        omega)
    (s := ⟨Function.update (fun _ => none) 0 (some 0), true, ticks⟩)
    ⟨candidates_initial g pos, fun h => absurd h (by simp)⟩
  refine ⟨s, hs, hCand, ?_⟩
  rw [Bool.and_eq_false_iff] at hEnd
  rcases hEnd with hSame | hOver
  · exact Or.inr (hSettled hSame)
  · exact Or.inl (by simpa [ok] using hOver)

theorem dominators_steady (pos : Nat → Nat) (preds : Nat → List Nat) (rpo : List Nat)
    (ticks : Nat) : Steady fun n => dominators pos preds rpo ticks n := by
  cases rpo with
  | nil => exact steady_const _
  | cons r rest => exact whileLoop_steady (fun s => round_steady pos preds rest s) _

section Settled

variable (hReach : ∀ b, reachable b = true ↔ g.Reachable b) (hSweep : Sweepable g pos rest)
  (hCand : Candidates g pos idom) (hSettled : Settled g reachable idom rest)
include hSweep hCand hSettled

theorem Settled.known {b : Nat} (hb : g.Reachable b) : ∃ d, idom b = some d := by
  rcases (hSweep.mem b).mp hb with rfl | hMem
  · exact ⟨0, hCand.forest.atRoot⟩
  · exact (hSettled b hMem).1

include hReach

theorem Settled.stable : Stable g.step 0 idom := by
  constructor
  case closed =>
    intro p _ b d hEdge hp
    exact Settled.known hSweep hCand hSettled ((hCand.inside p d hp).step hEdge)
  case below =>
    intro p _ b d e hb hEdge hIdom hp
    have hMem := ((hSweep.mem b).mp (hCand.inside b d hIdom)).resolve_left hb
    have hMeet := (hSettled b hMem).2
    rw [hIdom] at hMeet
    exact hMeet.2.1 p (mem_known.mpr ⟨(mem_preds hReach).mpr ⟨hEdge, hCand.inside p e hp⟩, e, hp⟩)

theorem Settled.dominates_iff {a b : Nat} (hb : g.Reachable b) :
    g.Dominates a b ↔ Above idom a b := by
  obtain ⟨d, hd⟩ := Settled.known hSweep hCand hSettled hb
  exact (Settled.stable hReach hSweep hCand hSettled).dominates_iff hCand.forest rfl hd

theorem Settled.isDominatorTree : IsDominatorTree g idom := by
  constructor
  case atEntry => exact hCand.forest.atRoot
  case immediate =>
    intro b hb hZero
    obtain ⟨d, hd⟩ := Settled.known hSweep hCand hSettled hb
    obtain ⟨e, he⟩ := hCand.forest.known b d hd
    have hAbove := @Settled.dominates_iff g pos idom reachable rest hReach hSweep hCand hSettled
    have hUp := hCand.forest.up b d hZero hd
    refine ⟨d, hd, ?_, (hAbove hb).mpr (above_parent hd), ?_⟩
    · intro hEq
      rw [hEq] at hUp
      omega
    · intro a hab hDom
      exact (hAbove (hCand.inside d e he)).mpr (((hAbove hb).mp hDom).parent hd hab)
  case unreachable =>
    intro b hb
    cases hIdom : idom b with
    | none => rfl
    | some d => exact absurd (hCand.inside b d hIdom) hb

end Settled

/-! ## Classified edges -/

theorem mem_reachableEdges (hReach : ∀ b, reachable b = true ↔ g.Reachable b) {b t : Nat} :
    (b, t) ∈ reachableEdges g reachable ↔ g.Reachable b ∧ g.Edge b t := by
  simp only [reachableEdges, mem_flatMap, mem_filter, mem_range, mem_map, Prod.mk.injEq, hReach]
  constructor
  · rintro ⟨a, ⟨-, ha⟩, t', ⟨hEdge, -⟩, rfl, rfl⟩
    exact ⟨ha, hEdge⟩
  · rintro ⟨hb, hEdge⟩
    exact ⟨b, ⟨hb.lt, hb⟩, t, ⟨hEdge, hb.step hEdge⟩, rfl, rfl⟩

/-- The answers of `dominates` on a graph, as a function. -/
def Answers (idom : Nat → Option Nat) (D : Nat → Nat → Bool) : Prop :=
  ∀ a b, Returns (fun n => dominates idom a n (some b)) (D a b)

theorem exists_answers (hForest : Forest g.step 0 pos idom) :
    ∃ D, Answers idom D ∧ ∀ a b, D a b = true ↔ Above idom a b := by
  choose D hD using fun a b => dominates_returns hForest a b
  exact ⟨D, fun a b => (hD a b).1, fun a b => (hD a b).2⟩

theorem classify_steady (g : Cfg) (reachable : Nat → Bool) (idom : Nat → Option Nat) :
    Steady fun n => classify g reachable idom n :=
  steady_foldlM (f := fun n edges (e : Nat × Nat) =>
      (dominates idom e.2 n (some e.1)).map fun back => edges ++ [(e, back)])
    (fun _ e => steady_map (dominates_steady idom e.2 (some e.1)) _) _ _

/-- The edges between reachable blocks, each with its answer. -/
def answered (g : Cfg) (reachable : Nat → Bool) (D : Nat → Nat → Bool) :
    List ((Nat × Nat) × Bool) :=
  (reachableEdges g reachable).map fun e => (e, D e.2 e.1)

theorem classify_returns (g : Cfg) (reachable : Nat → Bool) {D : Nat → Nat → Bool}
    (hD : Answers idom D) :
    Returns (fun n => classify g reachable idom n) (answered g reachable D) := by
  obtain ⟨s, hs, hEq⟩ := foldlM_returns (f := fun n edges (e : Nat × Nat) =>
      (dominates idom e.2 n (some e.1)).map fun back => edges ++ [(e, back)])
    (l := reachableEdges g reachable)
    (fun done s => s = done.map fun e => (e, D e.2 e.1))
    (fun _ e => steady_map (dominates_steady idom e.2 (some e.1)) _)
    (fun _ e _ s _ hs => by
      refine ⟨s ++ [(e, D e.2 e.1)], (hD e.2 e.1).map _, ?_⟩
      rw [hs, map_append]
      rfl)
    (s := []) rfl
  rw [hEq] at hs
  exact hs

theorem mem_sources (hReach : ∀ b, reachable b = true ↔ g.Reachable b) {D : Nat → Nat → Bool}
    {back : Bool} {b t : Nat} :
    b ∈ sources (answered g reachable D) back t ↔ g.Reachable b ∧ g.Edge b t ∧ D t b = back := by
  simp only [sources, answered, mem_map, mem_filter, Bool.and_eq_true, beq_iff_eq]
  constructor
  · rintro ⟨-, ⟨⟨⟨b', t'⟩, hMem, rfl⟩, rfl, hBack⟩, rfl⟩
    have hEdge := (mem_reachableEdges hReach).mp hMem
    exact ⟨hEdge.1, hEdge.2, hBack⟩
  · rintro ⟨hb, hEdge, hBack⟩
    exact ⟨((b, t), D t b), ⟨⟨(b, t), (mem_reachableEdges hReach).mpr ⟨hb, hEdge⟩, rfl⟩, rfl, hBack⟩,
      rfl⟩

/-- The backward search from the sources of back edges finds the natural loop. -/
theorem reached_iff (hReach : ∀ b, reachable b = true ↔ g.Reachable b) {h x : Nat}
    {starts : List Nat} (hStarts : ∀ b, b ∈ starts ↔ g.BackEdge b h) :
    ((x == h) = true ∨ Reached (fun b => (preds g reachable b).filter reachable)
      (fun b => b == h) starts x) ↔ g.NaturalLoop h x := by
  have hPast (a b : Nat) : Past (fun b => (preds g reachable b).filter reachable)
      (fun b => b == h) a b ↔ g.Edge b a ∧ g.Reachable b ∧ b ≠ h := by
    rw [Past, mem_filter, mem_preds hReach, hReach, beq_eq_false_iff_ne]
    tauto
  constructor
  · rintro (hEq | ⟨b, hStart, hWall, hSteps⟩)
    · exact Or.inl (beq_iff_eq.mp hEq)
    right
    have hBack := (hStarts b).mp hStart
    have hAll : x ≠ h ∧ g.Reachable x ∧ ReflTransGen (Around g.step h) x b := by
      induction hSteps with
      | refl => exact ⟨beq_eq_false_iff_ne.mp hWall, hBack.1, .refl⟩
      | tail _ hStep ih =>
        obtain ⟨hEdge, hReachable, hne⟩ := (hPast _ _).mp hStep
        exact ⟨hne, hReachable, .head ⟨⟨(), hEdge⟩, ih.1⟩ ih.2.2⟩
    exact ⟨hAll.1, hAll.2.1, b, hBack, hAll.2.2⟩
  · rintro (hEq | ⟨hne, hReachable, b, hBack, hSteps⟩)
    · exact Or.inl (beq_iff_eq.mpr hEq)
    right
    have hAll : b ≠ h ∧ ReflTransGen (Past (fun b => (preds g reachable b).filter reachable)
        (fun b => b == h)) b x := by
      induction hSteps using ReflTransGen.head_induction_on with
      | refl => exact ⟨hne, .refl⟩
      | @head x y hStep _ ih =>
        obtain ⟨⟨_, hEdge⟩, hy⟩ := hStep
        obtain ⟨hb, hRest⟩ := ih hy (hReachable.step hEdge)
        exact ⟨hb, hRest.tail ((hPast _ _).mpr ⟨hEdge, hReachable, hne⟩)⟩
    exact ⟨b, (hStarts b).mpr hBack, beq_eq_false_iff_ne.mpr hAll.1, hAll.2⟩

theorem findLoop_steady (g : Cfg) (reachable : Nat → Bool) (backPreds : Nat → List Nat)
    (s : Loops) (h : Nat) : Steady fun n => findLoop g reachable backPreds n s h := by
  unfold findLoop
  split
  · exact steady_const _
  · exact steady_map (search_steady _ _) _

/-- The loops of the blocks already looked at: one for each reachable one with back edges,
with the blocks that the search from them marks. -/
def LoopsFound (g : Cfg) (reachable : Nat → Bool) (backPreds : Nat → List Nat)
    (done : List Nat) (loops : List Loop) : Prop :=
  loops.map Loop.header = done.filter (fun h => !((backPreds h).isEmpty || !reachable h)) ∧
    ∀ l ∈ loops, ∀ x, x ∈ l.blocks ↔ x < g.nb ∧ ((x == l.header) = true ∨
      Reached (fun b => (preds g reachable b).filter reachable) (fun b => b == l.header)
        (backPreds l.header) x)

theorem findLoops_returns (hReach : ∀ b, reachable b = true ↔ g.Reachable b)
    (backPreds : Nat → List Nat) (ticks : Nat) :
    ∃ s, Returns (fun n => findLoops g reachable backPreds ticks n) s ∧
      LoopsFound g reachable backPreds (range g.nb) s.loops ∧ ticks ≤ s.ticks := by
  refine foldlM_returns (f := fun n => findLoop g reachable backPreds n)
    (fun done s => LoopsFound g reachable backPreds done s.loops ∧ ticks ≤ s.ticks)
    (findLoop_steady g reachable backPreds) ?_
    ⟨⟨rfl, fun l hl => absurd hl not_mem_nil⟩, Nat.le_refl _⟩
  intro done h m s _ hInv
  obtain ⟨⟨hHeaders, hBlocks⟩, hTicks⟩ := hInv
  by_cases hSkip : ((backPreds h).isEmpty || !reachable h) = true
  · refine ⟨{ s with ticks := s.ticks + 1 }, ⟨0, if_pos hSkip⟩, ⟨?_, hBlocks⟩,
      Nat.le_succ_of_le hTicks⟩
    rw [filter_append, filter_cons_of_neg (by simp [hSkip])]
    simpa using hHeaders
  · obtain ⟨r, hr⟩ := search_returns (Finset.range g.nb)
      (fun b t (ht : t ∈ (preds g reachable b).filter reachable) => by
        have hMem := (mem_preds hReach).mp (mem_filter.mp ht).1
        exact Finset.mem_range.mpr hMem.2.lt)
      (init (fun b => b == h) (backPreds h) (s.ticks + 1))
    obtain ⟨n, hn⟩ := hr
    dsimp only at hn
    have hMarked := marked_search hn
    refine ⟨⟨s.loops ++ [⟨h, (range g.nb).filter r.marked⟩], r.ticks⟩, ⟨n, ?_⟩, ⟨?_, ?_⟩, ?_⟩
    · dsimp only [findLoop]
      rw [if_neg hSkip, hn]
      rfl
    · rw [map_append, hHeaders, filter_append, filter_cons_of_pos (by simpa using hSkip)]
      rfl
    · intro l hl x
      rcases mem_append.mp hl with hl | hl
      · exact hBlocks l hl x
      · rw [mem_singleton.mp hl]
        simp only [mem_filter, mem_range, hMarked]
    · exact Nat.le_trans hTicks (Nat.le_trans (Nat.le_succ _) (ticks_search hn))

end B2Compiler.Passes.Builder
