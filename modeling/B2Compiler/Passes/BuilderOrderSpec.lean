import B2Compiler.Passes.BuilderKahn

/-!
# What the block order of the graph builder promises

On a graph whose block 0 is clear, `computeOrder` comes to an end and finds the dominator
tree, the back edges, the natural loops and the materialisation order, or refuses because
the work exceeds its budget.  On any other graph block 0 stands behind one of its
predecessors in the reverse postorder, so that the rounds cannot settle with block 0 as
the root: the walks go on for ever or the candidates are no dominator tree.
-/

namespace B2Compiler.Passes.Builder

open Relation List Option Nat
open Lib
open Lib.Fuel

/-- The candidates are the dominator tree, the edges are told apart by dominance, and the
loops are the natural loops of the targets of back edges. -/
structure DominatorsFound (g : Cfg) (r : BlockOrder) : Prop where
  tree : IsDominatorTree g r.idom
  back : ∀ b t, b ∈ r.backPreds t ↔ g.BackEdge b t
  forward : ∀ b t, b ∈ r.fwdPreds t ↔ g.ForwardEdge b t
  headers : (r.loops.map Loop.header).Nodup ∧ ∀ h, h ∈ r.loops.map Loop.header ↔ ∃ b, g.BackEdge b h
  blocks : ∀ l ∈ r.loops, ∀ x, x ∈ l.blocks ↔ g.NaturalLoop l.header x

/-- The builder refuses the irreducible graphs; otherwise each reachable block is ordered
once and behind its forward predecessors. -/
structure OrderFound (g : Cfg) (r : BlockOrder) : Prop where
  refuses : r.irreducible g ↔ g.Irreducible
  complete : ¬g.Irreducible → (∀ b, b ∈ r.order ↔ g.Reachable b) ∧ r.order.Nodup
  behind : ¬g.Irreducible → ∀ l b m, r.order = l ++ b :: m → ∀ p, g.ForwardEdge p b → p ∈ l

variable {g : Cfg}

variable {r : BlockOrder} {D : Nat → Nat → Bool} {rest : List Nat} {ticks n : Nat}

theorem dominatorsFound_of_answers {pos : Nat → Nat}
    (hReach : ∀ b, r.reachable b = true ↔ g.Reachable b) (hSweep : Sweepable g pos rest)
    (hCand : Candidates g pos r.idom) (hSettled : Settled g r.reachable r.idom rest)
    (hDom : ∀ a b, g.Reachable b → (D a b = true ↔ g.Dominates a b))
    (hBackPreds : r.backPreds = sources (answered g r.reachable D) true)
    (hFwdPreds : r.fwdPreds = sources (answered g r.reachable D) false)
    (hLoops : LoopsFound g r.reachable r.backPreds (range g.nb) r.loops) : DominatorsFound g r := by
  have hBack (b t : Nat) : b ∈ r.backPreds t ↔ g.BackEdge b t := by
    rw [hBackPreds, mem_sources hReach]
    constructor
    · exact fun h => ⟨h.1, h.2.1, (hDom t b h.1).mp h.2.2⟩
    · exact fun h => ⟨h.1, h.2.1, (hDom t b h.1).mpr h.2.2⟩
  have hHeader (h : Nat) : h ∈ r.loops.map Loop.header ↔ ∃ b, g.BackEdge b h := by
    rw [hLoops.1, mem_filter, mem_range]
    constructor
    · rintro ⟨-, hFlag⟩
      have hSome : r.backPreds h ≠ [] := by
        intro hNil
        rw [hNil] at hFlag
        cases hFlag
      obtain ⟨b, hb⟩ := exists_mem_of_ne_nil _ hSome
      exact ⟨b, (hBack b h).mp hb⟩
    · rintro ⟨b, hb⟩
      have hh := hb.1.step hb.2.1
      refine ⟨hh.lt, ?_⟩
      have hSome : r.backPreds h ≠ [] := ne_nil_of_mem ((hBack b h).mpr hb)
      simp [hSome, (hReach h).mpr hh]
  constructor
  case tree => exact Settled.isDominatorTree hReach hSweep hCand hSettled
  case back => exact hBack
  case forward =>
    intro b t
    rw [hFwdPreds, mem_sources hReach]
    constructor
    · rintro ⟨hb, hEdge, hAnswer⟩
      refine ⟨hb, hEdge, fun hDominates => ?_⟩
      rw [(hDom t b hb).mpr hDominates] at hAnswer
      cases hAnswer
    · rintro ⟨hb, hEdge, hNot⟩
      exact ⟨hb, hEdge, Bool.eq_false_iff.mpr fun hAnswer => hNot ((hDom t b hb).mp hAnswer)⟩
  case headers =>
    refine ⟨?_, hHeader⟩
    rw [hLoops.1]
    exact nodup_range.filter _
  case blocks =>
    intro l hl x
    obtain ⟨b, hb⟩ := (hHeader l.header).mp (mem_map.mpr ⟨l, hl, rfl⟩)
    rw [hLoops.2 l hl x, reached_iff hReach fun b => hBack b l.header]
    refine ⟨fun h => h.2, fun h => ⟨?_, h⟩⟩
    rcases h with rfl | ⟨-, hx, -⟩
    · exact (hb.1.step hb.2.1).lt
    · exact hx.lt

/-- A list of the reachable blocks without repetition is as long as there are reachable
blocks exactly when it has them all. -/
theorem Ordered.length_ne_iff {order : List Nat} {reachable : Nat → Bool} (h : Ordered g D order)
    (hReach : ∀ b, reachable b = true ↔ g.Reachable b) :
    order.length ≠ ((range g.nb).filter reachable).length ↔ ∃ b, g.Reachable b ∧ b ∉ order := by
  have hMem (b : Nat) : b ∈ (range g.nb).filter reachable ↔ g.Reachable b := by
    rw [mem_filter, mem_range, hReach]
    exact ⟨fun h => h.2, fun h => ⟨h.lt, h⟩⟩
  have hSub := subperm_of_subset h.nodup fun b hb => (hMem b).mpr (h.reached b hb)
  constructor
  · intro hLength
    by_contra hAll
    push Not at hAll
    have hBack := subperm_of_subset (nodup_range.filter reachable)
      fun b hb => hAll b ((hMem b).mp hb)
    exact hLength (le_antisymm hSub.length_le hBack.length_le)
  · rintro ⟨b, hb, hMissing⟩ hLength
    have hPerm := hSub.perm_of_length_le (le_of_eq hLength.symm)
    exact hMissing (hPerm.mem_iff.mpr ((hMem b).mpr hb))

theorem orderFound_of_ordered (h : Ordered g D r.order)
    (hReach : ∀ b, r.reachable b = true ↔ g.Reachable b)
    (hDom : ∀ a b, g.Reachable b → (D a b = true ↔ g.Dominates a b)) : OrderFound g r := by
  have hMissing := h.complete_iff hDom
  constructor
  case refuses => exact (h.length_ne_iff hReach).trans hMissing
  case complete =>
    intro hReducible
    refine ⟨fun b => ⟨h.reached b, fun hb => ?_⟩, h.nodup⟩
    by_contra hNot
    exact hReducible (hMissing.mp ⟨b, hb, hNot⟩)
  case behind =>
    intro _ l b m hSplit p hp
    refine h.topological l b m hSplit p ⟨hp.1, hp.2.1, Bool.eq_false_iff.mpr fun hAnswer => ?_⟩
    exact hp.2.2 ((hDom b p hp.1).mp hAnswer)

/-- The phases one after the other, with fuel enough for each of them. -/
theorem computeOrder_of_phases {m : Marking.State Nat} {d : Dfs} {doms : Doms}
    {edges : List ((Nat × Nat) × Bool)} {ls : Loops} {k : Kahn}
    (h₁ : Returns (fun n => reachability g ticks n) m)
    (h₂ : Returns (fun n => postorder g m.marked m.ticks n) d)
    (h₃ : Returns (fun n => dominators (rpoPos d.post) (preds g m.marked) d.post d.ticks n) doms)
    (h₄ : Returns (fun n => classify g m.marked doms.idom n) edges)
    (h₅ : Returns (fun n => findLoops g m.marked (sources edges true) doms.ticks n) ls)
    (h₆ : Returns (fun n => kahn g m.marked doms.idom (sources edges false) ls.ticks n) k) :
    Returns (fun n => computeOrder g ticks n)
      { reachable := m.marked
        idom := doms.idom
        fwdPreds := sources edges false
        backPreds := sources edges true
        loops := ls.loops
        loopOf := innermost ls.loops
        order := k.order
        ticks := k.ticks } := by
  obtain ⟨n₁, h₁⟩ := h₁
  obtain ⟨n₂, h₂⟩ := h₂
  obtain ⟨n₃, h₃⟩ := h₃
  obtain ⟨n₄, h₄⟩ := h₄
  obtain ⟨n₅, h₅⟩ := h₅
  obtain ⟨n₆, h₆⟩ := h₆
  let N := n₁ + n₂ + n₃ + n₄ + n₅ + n₆
  have h₁ := Marking.search_steady g.succ _ n₁ N m (by omega) h₁
  have h₂ := postorder_steady g m.marked m.ticks n₂ N d (by omega) h₂
  have h₃ := dominators_steady _ _ d.post d.ticks n₃ N doms (by omega) h₃
  have h₄ := classify_steady g m.marked doms.idom n₄ N edges (by omega) h₄
  have h₅ := steady_foldlM (findLoop_steady g m.marked (sources edges true)) _ _ n₅ N ls
    (by omega) h₅
  have h₆ := whileLoop_steady (kahnTurn_steady g m.marked doms.idom) _ n₆ N k (by omega) h₆
  refine ⟨N, ?_⟩
  refine bind_eq_some_iff.mpr ⟨m, h₁, ?_⟩
  refine bind_eq_some_iff.mpr ⟨d, h₂, ?_⟩
  refine bind_eq_some_iff.mpr ⟨doms, h₃, ?_⟩
  refine bind_eq_some_iff.mpr ⟨edges, h₄, ?_⟩
  refine bind_eq_some_iff.mpr ⟨ls, h₅, ?_⟩
  exact map_eq_some_iff.mpr ⟨k, h₆, rfl⟩

/-- On a clear graph all phases come to an end. -/
theorem computeOrder_clear (hClear : g.EntryClear) (ticks : Nat) :
    ∃ r, Returns (fun n => computeOrder g ticks n) r ∧
      (r.exceeded ∨ (DominatorsFound g r ∧ OrderFound g r)) := by
  obtain ⟨m, h₁⟩ := reachability_returns g ticks
  have hReach := reachability_spec h₁.choose_spec
  obtain ⟨d, h₂⟩ := postorder_returns hReach m.ticks
  obtain ⟨hRpo, hEntry, -⟩ := postorder_spec hReach h₂.choose_spec
  obtain ⟨rest, hPost⟩ := hRpo.head
  have hSweep := hRpo.sweepable (hEntry hClear) hPost
  obtain ⟨doms, h₃, hCand, hEnd⟩ := dominators_returns hReach hSweep d.ticks
  rw [← hPost] at h₃
  obtain ⟨D, hD, hAbove⟩ := exists_answers hCand.forest
  have h₄ := classify_returns g m.marked hD
  obtain ⟨ls, h₅, hLoops, hTicks₅⟩ :=
    findLoops_returns hReach (sources (answered g m.marked D) true) doms.ticks
  obtain ⟨k, h₆, hOrdered, hTicks₆⟩ := kahn_returns hReach hD ls.ticks
  refine ⟨_, computeOrder_of_phases h₁ h₂ h₃ h₄ h₅ h₆, ?_⟩
  rcases hEnd with hOver | hSettled
  · left
    show kBuildBudget < k.ticks
    omega
  · right
    have hDom (a b : Nat) (hb : g.Reachable b) : D a b = true ↔ g.Dominates a b :=
      (hAbove a b).trans (Settled.dominates_iff hReach hSweep hCand hSettled hb).symm
    exact ⟨dominatorsFound_of_answers hReach hSweep hCand hSettled hDom rfl rfl hLoops,
      orderFound_of_ordered hOrdered hReach hDom⟩

/-! ## The other graphs -/

/-- The candidates are what one more round would make them. -/
def Fixed (pos : Nat → Nat) (preds : Nat → List Nat) (idom : Nat → Option Nat)
    (done : List Nat) : Prop :=
  ∀ b ∈ done, ∃ n r, meetPreds pos idom (preds b) n = some r ∧ (r = none ∨ idom b = r)

theorem fixed_of_round {pos : Nat → Nat} {preds : Nat → List Nat} {s s' : Doms}
    (h : round pos preds rest n s = some s') (hSame : s'.changed = false) :
    Fixed pos preds s'.idom rest := by
  refine foldlM_inv (f := visitBlock pos preds n)
    (fun done t => t.changed = false → Fixed pos preds t.idom done) ?_ h
    (fun _ b hb => absurd hb not_mem_nil) hSame
  intro done b m t t' _ hInv hVisit hUnchanged
  obtain ⟨r, hr, rfl⟩ := map_eq_some_iff.mp hVisit
  by_cases hNew : r ≠ none ∧ t.idom b ≠ r
  · rw [if_pos hNew] at hUnchanged
    cases hUnchanged
  rw [if_neg hNew] at hUnchanged ⊢
  intro c hc
  rcases mem_append.mp hc with hc | hc
  · exact hInv hUnchanged c hc
  · rw [mem_singleton.mp hc]
    refine ⟨n, r, hr, ?_⟩
    by_contra hNot
    rw [not_or] at hNot
    exact hNew hNot

theorem fixed_of_dominators {pos : Nat → Nat} {preds : Nat → List Nat} {s : Doms}
    (h : dominators pos preds (0 :: rest) ticks n = some s) (hWithin : s.ticks ≤ kBuildBudget) :
    Fixed pos preds s.idom rest := by
  obtain ⟨hFixed, hEnd⟩ := whileLoop_inv (fun s => s.changed = false → Fixed pos preds s.idom rest)
    (fun n s s' _ _ hRound => fixed_of_round hRound) h (fun hSame => absurd hSame (by simp))
  rw [Bool.and_eq_false_iff] at hEnd
  rcases hEnd with hSame | hOver
  · exact hFixed hSame
  · exact absurd hWithin (by simpa [ok] using hOver)

theorem ticks_findLoops {reachable : Nat → Bool} {backPreds : Nat → List Nat} {s : Loops}
    (h : findLoops g reachable backPreds ticks n = some s) : ticks ≤ s.ticks := by
  refine foldlM_inv (f := findLoop g reachable backPreds n) (fun _ s => ticks ≤ s.ticks) ?_ h
    (le_refl _)
  intro done b m s s' _ hLe hFind
  unfold findLoop at hFind
  split at hFind
  · cases hFind
    exact le_succ_of_le hLe
  · obtain ⟨r, hr, rfl⟩ := map_eq_some_iff.mp hFind
    exact le_trans hLe (le_trans (le_succ _) (Marking.ticks_search hr))

theorem ticks_kahn {reachable : Nat → Bool} {idom : Nat → Option Nat} {fwdPreds : Nat → List Nat}
    {s : Kahn} (h : kahn g reachable idom fwdPreds ticks n = some s) : ticks ≤ s.ticks := by
  refine (whileLoop_inv (fun s => ticks ≤ s.ticks) (fun n s s' hLe _ hTurn => ?_) h (le_refl _)).1
  unfold kahnTurn at hTurn
  split at hTurn
  · cases hTurn
    exact hLe
  rename_i b _
  refine foldlM_inv (f := kahnEdge reachable idom b n) (fun _ s => ticks ≤ s.ticks) ?_ hTurn
    (le_succ_of_le hLe)
  intro done t m s s' _ hLe hEdge
  unfold kahnEdge at hEdge
  split at hEdge
  · obtain ⟨back, -, rfl⟩ := map_eq_some_iff.mp hEdge
    dsimp only
    split
    · split
      · exact hLe
      · exact hLe
    · exact hLe
  · cases hEdge
    exact hLe

/-- A run within the budget that ends with block 0 as the root of all reachable blocks has
not come back to block 0 from another block first. -/
theorem entryClear_of_tree (h : computeOrder g ticks n = some r) (hWithin : ¬r.exceeded)
    (hTree : IsDominatorTree g r.idom) : g.EntryClear := by
  obtain ⟨m, h₁, h⟩ := bind_eq_some_iff.mp h
  obtain ⟨d, h₂, h⟩ := bind_eq_some_iff.mp h
  obtain ⟨doms, h₃, h⟩ := bind_eq_some_iff.mp h
  obtain ⟨edges, h₄, h⟩ := bind_eq_some_iff.mp h
  obtain ⟨ls, h₅, h⟩ := bind_eq_some_iff.mp h
  obtain ⟨k, h₆, rfl⟩ := map_eq_some_iff.mp h
  have hTicks : doms.ticks ≤ kBuildBudget := by
    have hLoops := ticks_findLoops h₅
    have hKahn := ticks_kahn h₆
    have hLe : k.ticks ≤ kBuildBudget := not_lt.mp hWithin
    omega
  have hReach := reachability_spec h₁
  obtain ⟨hRpo, -, hBehind⟩ := postorder_spec hReach h₂
  obtain ⟨rest, hPost⟩ := hRpo.head
  by_contra hClear
  obtain ⟨p, hp, hEdge, hMem, hPos⟩ := hBehind hClear
  have hAgain : 0 ∈ rest := by
    by_contra hNot
    have hZero : rpoPos d.post 0 = 0 := by
      rw [hPost]
      exact rpoPos_append (l := []) hNot
    omega
  have hFixed := fixed_of_dominators (by rw [← hPost]; exact h₃) hTicks
  obtain ⟨n', z, hMeet, hSame⟩ := hFixed 0 hAgain
  have hReachable := (hRpo.mem p).mp hMem
  obtain ⟨e, he, -⟩ := hTree.immediate p hReachable hp
  obtain ⟨z', rfl, hLe⟩ := meetPreds_pos hMeet ((mem_preds hReach).mpr ⟨hEdge, hReachable⟩) he
  have hRoot := hSame.resolve_left (some_ne_none z')
  have hAtEntry : doms.idom 0 = some 0 := hTree.atEntry
  rw [hAtEntry] at hRoot
  cases hRoot
  omega

theorem computeOrder_steady (g : Cfg) (ticks : Nat) : Steady fun n => computeOrder g ticks n := by
  refine steady_bind (Marking.search_steady g.succ _) fun m => ?_
  refine steady_bind (postorder_steady g m.marked m.ticks) fun d => ?_
  refine steady_bind (dominators_steady _ _ d.post d.ticks) fun doms => ?_
  refine steady_bind (classify_steady g m.marked doms.idom) fun edges => ?_
  refine steady_bind (steady_foldlM (findLoop_steady g m.marked _) _ _) fun ls => ?_
  exact steady_map (whileLoop_steady (kahnTurn_steady g m.marked doms.idom) _) _

/-- `do { r = 0; while (r == 0); } while (true);` -/
def outerLoop : Rbc.Method where
  flags := 8
  numRegs := 1
  code := [⟨.iconst, 0, 0, 0, 0⟩, ⟨.ifeq, 0, 0, 0, 1⟩, ⟨.goto, 0, 0, 0, 0⟩]

def outerGraph : Cfg := cfgOf outerLoop (by decide)

/-- The builder orders block 1 before block 0, and makes block 2 the dominator of block 0. -/
theorem outerLoop_run (h : Returns (fun n => computeOrder outerGraph 12 n) r) :
    r.order = [1, 2, 0] ∧ r.idom 0 = some 2 ∧ r.ticks = 41 ∧
      (range 3).filter r.reachable = [0, 1, 2] := by
  have hRun : (computeOrder outerGraph 12 40).map (fun r =>
      (r.order, r.idom 0, r.ticks, (range 3).filter r.reachable)) =
        some ([1, 2, 0], some 2, 41, [0, 1, 2]) := by
    decide +kernel
  obtain ⟨r', hr', hParts⟩ := map_eq_some_iff.mp hRun
  have hSame := Returns.unique (computeOrder_steady outerGraph 12) h ⟨40, hr'⟩
  subst hSame
  simpa using hParts

/-! ## When the phase does what it is for -/

/-- `computeOrder` ends with the dominator tree, the back edges and the natural loops, or
with the budget exceeded, exactly when block 0 is clear or the budget is exceeded. -/
theorem computeOrder_dominators_iff (g : Cfg) (ticks : Nat) :
    (∃ r, Returns (fun n => computeOrder g ticks n) r ∧ (r.exceeded ∨ DominatorsFound g r)) ↔
      (g.EntryClear ∨ ∃ r, Returns (fun n => computeOrder g ticks n) r ∧ r.exceeded) := by
  constructor
  · rintro ⟨r, ⟨n, hn⟩, hFound⟩
    by_cases hOver : r.exceeded
    · exact Or.inr ⟨r, ⟨n, hn⟩, hOver⟩
    · exact Or.inl (entryClear_of_tree hn hOver (hFound.resolve_left hOver).tree)
  · rintro (hClear | ⟨r, hr, hOver⟩)
    · obtain ⟨r, hr, hFound⟩ := computeOrder_clear hClear ticks
      exact ⟨r, hr, hFound.imp_right And.left⟩
    · exact ⟨r, hr, Or.inl hOver⟩

/-- A loop that starts at the first instruction, with another one inside it: the candidates
form a circle. -/
theorem not_computeOrder_dominators : ¬∀ (m : Rbc.Method) (h : 0 < m.code.length) (ticks : Nat),
    (Rbc.verify m).ok = true → ∃ r, Returns (fun n => computeOrder (cfgOf m h) ticks n) r ∧
      (r.exceeded ∨ DominatorsFound (cfgOf m h) r) := by
  intro hAll
  obtain ⟨r, hr, hFound⟩ := hAll outerLoop (by decide) 12 (by decide +kernel)
  obtain ⟨-, hIdom, hTicks, -⟩ := outerLoop_run hr
  rcases hFound with hOver | hFound
  · have hLt : kBuildBudget < r.ticks := hOver
    rw [hTicks] at hLt
    exact absurd hLt (by decide)
  · have hEntry := hFound.tree.atEntry
    rw [hIdom] at hEntry
    cases hEntry

/-- On a clear graph the materialisation order is complete and topological, and the builder
refuses exactly the irreducible graphs, unless the budget is exceeded. -/
theorem computeOrder_order {g : Cfg} (hClear : g.EntryClear) (ticks : Nat) :
    ∃ r, Returns (fun n => computeOrder g ticks n) r ∧ (r.exceeded ∨ OrderFound g r) := by
  obtain ⟨r, hr, hFound⟩ := computeOrder_clear hClear ticks
  exact ⟨r, hr, hFound.imp_right And.right⟩

/-- A switch with a repeated target into two blocks that jump at each other and at
themselves, and a block that is not reached. -/
def switchGraph : Cfg where
  nb := 4
  succ b := match b with
    | 0 => [1, 1, 2]
    | 1 => [2, 1]
    | 2 => [1, 2]
    | 3 => [0, 1]
    | _ => []
  nonempty := by decide
  succ_lt b t ht := by
    match b with
    | 0 | 1 | 2 | 3 =>
      simp only [mem_cons, not_mem_nil, or_false] at ht
      omega
    | _ + 4 => cases ht

theorem computeOrder_order_switchGraph : ∃ r, Returns (fun n => computeOrder switchGraph 0 n) r ∧
      (r.exceeded ∨ OrderFound switchGraph r) := by
  refine computeOrder_order ?_ 0
  -- the edges into block 0 come from the block that is not reached
  have hStay : ∀ s, s = 1 ∨ s = 2 → ∀ t, switchGraph.Leads s t → t = 1 ∨ t = 2 := by
    intro s hs t hLeads
    induction hLeads with
    | refl => exact hs
    | tail _ hEdge ih =>
      rcases ih with rfl | rfl
      · simpa [Cfg.Edge, switchGraph, or_comm] using hEdge
      · simpa [Cfg.Edge, switchGraph] using hEdge
  intro s hs hLeads
  have hStart : s = 1 ∨ s = 2 := by simpa [switchGraph] using hs
  rcases hStay s hStart 0 hLeads with hZero | hZero
  · cases hZero
  · cases hZero

/-- Block 1 stands before block 0, although the graph is taken to be reducible. -/
theorem not_computeOrder_order : ¬∀ (m : Rbc.Method) (h : 0 < m.code.length) (ticks : Nat),
    (Rbc.verify m).ok = true → ∃ r, Returns (fun n => computeOrder (cfgOf m h) ticks n) r ∧
      (r.exceeded ∨ OrderFound (cfgOf m h) r) := by
  intro hAll
  obtain ⟨r, hr, hFound⟩ := hAll outerLoop (by decide) 12 (by decide +kernel)
  obtain ⟨hOrder, -, hTicks, hReached⟩ := outerLoop_run hr
  rcases hFound with hOver | hFound
  · have hLt : kBuildBudget < r.ticks := hOver
    rw [hTicks] at hLt
    exact absurd hLt (by decide)
  have hAccepted : ¬r.irreducible outerGraph := by
    show ¬r.order.length ≠ ((range outerGraph.nb).filter r.reachable).length
    have hBlocks : outerGraph.nb = 3 := by decide +kernel
    rw [hBlocks, hReached, hOrder]
    decide
  have hReducible : ¬outerGraph.Irreducible := fun h => hAccepted (hFound.refuses.mpr h)
  have hEdge : outerGraph.Edge 0 1 := by
    show 1 ∈ outerGraph.succ 0
    decide +kernel
  have hForward : outerGraph.ForwardEdge 0 1 := by
    refine ⟨.refl, hEdge, fun hDom => ?_⟩
    obtain ⟨i, hi⟩ := hDom () [] .entry
    rw [mem_singleton] at hi
    cases hi
  exact absurd (hFound.behind hReducible [] 1 [2, 0] hOrder 0 hForward) not_mem_nil

end B2Compiler.Passes.Builder
