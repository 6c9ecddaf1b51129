import B2Compiler.Lib.ClosedWalk
import B2Compiler.Passes.BuilderEdges
import Mathlib.Data.Finset.Max

/-!
# The materialisation order of the graph builder

The builder counts the forward edges into each block and orders the least block with no
edge left until there is none.  It gets stuck exactly when there is a cycle of forward
edges, that is a cycle without a block that dominates the others.
-/

namespace B2Compiler.Passes.Builder

open Relation List
open Lib
open Lib.Fuel
open Lib.ClosedWalk

variable {g : Cfg} {reachable : Nat → Bool} {idom : Nat → Option Nat} {D : Nat → Nat → Bool}

/-! ## Counting edges -/

/-- An edge that `dominates` does not call a back edge. -/
def Onward (g : Cfg) (D : Nat → Nat → Bool) (b t : Nat) : Prop :=
  g.Reachable b ∧ g.Edge b t ∧ D t b = false

/-- The number of onward edges into a block from blocks that are not ordered yet. -/
def pending (g : Cfg) (reachable : Nat → Bool) (D : Nat → Nat → Bool) (order : List Nat)
    (t : Nat) : Nat :=
  (reachableEdges g reachable).countP fun e =>
    e.2 == t && (!D e.2 e.1 && !order.contains e.1)

theorem countP_flatMap_single {α β : Type} {l : List α} {f : α → List β} {q : β → Bool} {b : α}
    (hNodup : l.Nodup) (hb : b ∈ l) (hOther : ∀ a, a ≠ b → ∀ x ∈ f a, q x = false) :
    (l.flatMap f).countP q = (f b).countP q := by
  induction l with
  | nil => cases hb
  | cons a l ih =>
    rw [flatMap_cons, countP_append]
    obtain ⟨ha, hRest⟩ := nodup_cons.mp hNodup
    by_cases hab : a = b
    · subst hab
      have hZero : (l.flatMap f).countP q = 0 := by
        rw [countP_eq_zero]
        intro x hx
        obtain ⟨c, hc, hx⟩ := mem_flatMap.mp hx
        rw [hOther c (fun hEq => ha (hEq ▸ hc)) x hx]
        exact Bool.false_ne_true
      rw [hZero, Nat.add_zero]
    · have hZero : (f a).countP q = 0 := by
        rw [countP_eq_zero]
        intro x hx
        rw [hOther a hab x hx]
        exact Bool.false_ne_true
      rw [hZero, Nat.zero_add]
      exact ih hRest ((mem_cons.mp hb).resolve_left (Ne.symm hab))

/-- Each edge between reachable blocks is listed as often as the source has it. -/
theorem countP_reachableEdges (hReach : ∀ b, reachable b = true ↔ g.Reachable b) {b t : Nat}
    (hb : g.Reachable b) (ht : g.Reachable t) :
    (reachableEdges g reachable).countP (fun e => e.1 == b && e.2 == t) = (g.succ b).count t := by
  have hMem : b ∈ (range g.nb).filter reachable :=
    mem_filter.mpr ⟨mem_range.mpr hb.lt, (hReach b).mpr hb⟩
  rw [reachableEdges, countP_flatMap_single (nodup_range.filter reachable) hMem]
  · rw [countP_map, countP_filter, count]
    apply countP_congr
    intro x _
    simp only [Function.comp, beq_self_eq_true, Bool.true_and, Bool.and_eq_true, beq_iff_eq]
    constructor
    · exact fun h => h.1
    · exact fun h => ⟨h, h ▸ (hReach t).mpr ht⟩
  · intro a ha x hx
    obtain ⟨u, -, rfl⟩ := mem_map.mp hx
    simp [ha]

theorem pending_append (hReach : ∀ b, reachable b = true ↔ g.Reachable b) {order : List Nat}
    {b t : Nat} (hNew : b ∉ order) (hb : g.Reachable b) (ht : g.Reachable t) :
    pending g reachable D order t =
      pending g reachable D (order ++ [b]) t + if D t b then 0 else (g.succ b).count t := by
  have hSplit := countP_eq_countP_filter_add (reachableEdges g reachable)
    (fun e : Nat × Nat => e.2 == t && (!D e.2 e.1 && !order.contains e.1)) (fun e => e.1 == b)
  rw [countP_filter, countP_filter, Nat.add_comm] at hSplit
  unfold pending
  rw [hSplit]
  congr 1
  · apply countP_congr
    intro e _
    simp only [Bool.and_eq_true, beq_iff_eq, Bool.not_eq_true', contains_eq_mem,
      decide_eq_false_iff_not, mem_append, mem_singleton, not_or, beq_eq_false_iff_ne]
    tauto
  · cases hBack : D t b with
    | true =>
      rw [if_pos rfl, countP_eq_zero]
      intro e _
      simp only [Bool.and_eq_true, beq_iff_eq, Bool.not_eq_true', not_and]
      rintro ⟨rfl, hOnward, -⟩ rfl
      rw [hBack] at hOnward
      cases hOnward
    | false =>
      rw [if_neg Bool.false_ne_true, ← countP_reachableEdges hReach hb ht]
      apply countP_congr
      intro e _
      simp only [Bool.and_eq_true, beq_iff_eq, Bool.not_eq_true', contains_eq_mem,
        decide_eq_false_iff_not]
      constructor
      · exact fun h => ⟨h.2, h.1.1⟩
      · rintro ⟨h₁, h₂⟩
        exact ⟨⟨h₂, by rw [h₁, h₂]; exact hBack, by rw [h₁]; exact hNew⟩, h₁⟩

theorem pending_eq_zero (hReach : ∀ b, reachable b = true ↔ g.Reachable b) {order : List Nat}
    {t : Nat} : pending g reachable D order t = 0 ↔ ∀ p, Onward g D p t → p ∈ order := by
  rw [pending, countP_eq_zero]
  constructor
  · intro h p hp
    have hNot := h (p, t) ((mem_reachableEdges hReach).mpr ⟨hp.1, hp.2.1⟩)
    simpa [hp.2.2] using hNot
  intro h e he
  obtain ⟨p, u⟩ := e
  have hEdge := (mem_reachableEdges hReach).mp he
  simp only [Bool.and_eq_true, beq_iff_eq, Bool.not_eq_true', contains_eq_mem,
    decide_eq_false_iff_not, not_and, not_not]
  rintro rfl hOnward
  exact h p ⟨hEdge.1, hEdge.2, hOnward⟩

/-! ## The invariant -/

/-- A block is queued when no edge into it is left; `left t` edges into `t` still have to
be counted down. -/
structure Queued (g : Cfg) (reachable : Nat → Bool) (D : Nat → Nat → Bool) (left : Nat → Nat)
    (s : Kahn) : Prop where
  indeg : ∀ t, g.Reachable t → s.indeg t = pending g reachable D s.order t + left t
  queued : ∀ t, s.queued t = true ↔ t ∈ s.order ++ s.ready
  zero : ∀ t, g.Reachable t → (s.indeg t = 0 ↔ s.queued t = true)
  reached : ∀ t ∈ s.order ++ s.ready, g.Reachable t
  nodup : (s.order ++ s.ready).Nodup

/-- Each block of the order stands behind its onward predecessors. -/
def Topological (g : Cfg) (D : Nat → Nat → Bool) (order : List Nat) : Prop :=
  ∀ l b m, order = l ++ b :: m → ∀ p, Onward g D p b → p ∈ l

/-- The edges of `b` behind the ones already counted, where they are onward. -/
def uncounted (g : Cfg) (D : Nat → Nat → Bool) (b : Nat) (done : List Nat) (t : Nat) : Nat :=
  if D t b then 0 else ((g.succ b).drop done.length).count t

section Turns

variable (hReach : ∀ b, reachable b = true ↔ g.Reachable b) (hD : Answers idom D)
include hReach

theorem queued_start (ticks : Nat) : Queued g reachable D (fun _ => 0)
    (kahnStart g reachable (sources (answered g reachable D) false) ticks) := by
  have hLength (t : Nat) : (sources (answered g reachable D) false t).length =
      pending g reachable D [] t := by
    rw [sources, answered, length_map, ← countP_eq_length_filter, countP_map, pending]
    apply countP_congr
    intro e _
    simp
  have hReady (t : Nat) : t ∈ (kahnStart g reachable (sources (answered g reachable D) false)
      ticks).ready ↔ g.Reachable t ∧ pending g reachable D [] t = 0 := by
    simp only [kahnStart, mem_filter, mem_range, Bool.and_eq_true, hReach, beq_iff_eq]
    constructor
    · rintro ⟨-, ht, hZero⟩
      rw [if_pos ((hReach t).mpr ht), hLength] at hZero
      exact ⟨ht, hZero⟩
    · rintro ⟨ht, hZero⟩
      refine ⟨ht.lt, ht, ?_⟩
      rw [if_pos ((hReach t).mpr ht), hLength]
      exact hZero
  have hQueued (t : Nat) : (kahnStart g reachable (sources (answered g reachable D) false)
      ticks).queued t = true ↔ t ∈ (kahnStart g reachable
        (sources (answered g reachable D) false) ticks).ready :=
    contains_iff_mem
  have hIndeg (t : Nat) (ht : g.Reachable t) : (kahnStart g reachable
      (sources (answered g reachable D) false) ticks).indeg t = pending g reachable D [] t := by
    rw [← hLength]
    exact if_pos ((hReach t).mpr ht)
  constructor
  case indeg =>
    exact hIndeg
  case queued =>
    exact hQueued
  case zero =>
    intro t ht
    rw [hQueued, hReady, hIndeg t ht]
    exact ⟨fun h => ⟨ht, h⟩, fun h => h.2⟩
  case reached =>
    exact fun t ht => ((hReady t).mp ht).1
  case nodup =>
    exact nodup_range.filter _

include hD in
theorem kahnEdge_returns {b t : Nat} {l m : List Nat} (hb : g.Reachable b)
    (hSplit : g.succ b = l ++ t :: m) {s : Kahn}
    (hInv : Queued g reachable D (uncounted g D b l) s) :
    ∃ s', Returns (fun n => kahnEdge reachable idom b n s t) s' ∧
      Queued g reachable D (uncounted g D b (l ++ [t])) s' ∧ s'.order = s.order ∧
      s'.ticks = s.ticks := by
  have hEdge : g.Edge b t := by
    show t ∈ g.succ b
    rw [hSplit]
    exact mem_append_right l mem_cons_self
  have ht := hb.step hEdge
  have hBefore : (g.succ b).drop l.length = t :: m := by
    rw [hSplit, drop_left]
  have hAfter : (g.succ b).drop (l ++ [t]).length = m := by
    have hList : g.succ b = (l ++ [t]) ++ m := by
      rw [hSplit, append_assoc]
      rfl
    rw [hList, drop_left]
  have hStep : ∀ u, D u b = false → uncounted g D b l u =
      uncounted g D b (l ++ [t]) u + if t = u then 1 else 0 := by
    intro u hu
    unfold uncounted
    rw [hBefore, hAfter, hu, if_neg Bool.false_ne_true, if_neg Bool.false_ne_true, count_cons]
    simp only [beq_iff_eq]
  have hBack : ∀ u, D u b = true → uncounted g D b l u = uncounted g D b (l ++ [t]) u := by
    intro u hu
    unfold uncounted
    rw [if_pos hu, if_pos hu]
  have hAnswer := (hD t b).map fun back =>
    if !back && 0 < s.indeg t then
      let indeg := Function.update s.indeg t (s.indeg t - 1)
      if indeg t = 0 && !s.queued t then
        { s with
          indeg := indeg
          queued := Function.update s.queued t true
          ready := s.ready ++ [t] }
      else { s with indeg := indeg }
    else s
  have hRun : (fun n => kahnEdge reachable idom b n s t) = fun n =>
      (dominates idom t n (some b)).map _ := funext fun n => if_pos ((hReach t).mpr ht)
  rw [hRun]
  refine ⟨_, hAnswer, ?_⟩
  cases hDt : D t b with
  | true =>
    rw [if_neg (by simp)]
    refine ⟨⟨?_, hInv.queued, hInv.zero, hInv.reached, hInv.nodup⟩, rfl, rfl⟩
    intro u hu
    rw [hInv.indeg u hu]
    cases hDu : D u b with
    | true => rw [hBack u hDu]
    | false =>
      have hne : t ≠ u := by
        intro hEq
        rw [hEq, hDu] at hDt
        cases hDt
      rw [hStep u hDu, if_neg hne, Nat.add_zero]
  | false =>
    have hIndeg := hInv.indeg t ht
    rw [hStep t hDt, if_pos rfl] at hIndeg
    have hPos : 0 < s.indeg t := by omega
    have hNotQueued : s.queued t = false := by
      rw [Bool.eq_false_iff]
      intro hQueued
      have := (hInv.zero t ht).mpr hQueued
      omega
    have hFresh : t ∉ s.order ++ s.ready := by
      intro hMem
      rw [(hInv.queued t).mpr hMem] at hNotQueued
      cases hNotQueued
    rw [if_pos (by simpa using hPos)]
    dsimp only
    have hCount (u : Nat) (hu : g.Reachable u) : Function.update s.indeg t (s.indeg t - 1) u =
          pending g reachable D s.order u + uncounted g D b (l ++ [t]) u := by
      by_cases hut : u = t
      · subst hut
        rw [Function.update_self]
        omega
      · rw [Function.update_of_ne hut, hInv.indeg u hu]
        cases hDu : D u b with
        | true => rw [hBack u hDu]
        | false => rw [hStep u hDu, if_neg (Ne.symm hut), Nat.add_zero]
    by_cases hZero : s.indeg t - 1 = 0
    · rw [if_pos (by simp [Function.update_self, hZero, hNotQueued])]
      refine ⟨⟨hCount, ?_, ?_, ?_, ?_⟩, rfl, rfl⟩
      · intro u
        show Function.update s.queued t true u = true ↔ u ∈ s.order ++ (s.ready ++ [t])
        by_cases hut : u = t
        · subst hut
          simp
        · rw [Function.update_of_ne hut, hInv.queued]
          simp [hut]
      · intro u hu
        show Function.update s.indeg t (s.indeg t - 1) u = 0 ↔
          Function.update s.queued t true u = true
        by_cases hut : u = t
        · subst hut
          simp [hZero]
        · rw [Function.update_of_ne hut, Function.update_of_ne hut]
          exact hInv.zero u hu
      · intro u hu
        have hu' : u ∈ (s.order ++ s.ready) ++ [t] := by
          rw [append_assoc]
          exact hu
        rcases mem_append.mp hu' with hOld | hNew
        · exact hInv.reached u hOld
        · exact mem_singleton.mp hNew ▸ ht
      · show (s.order ++ (s.ready ++ [t])).Nodup
        rw [← append_assoc]
        exact nodup_append.mpr ⟨hInv.nodup, nodup_singleton t, fun a ha c hc hEq =>
          hFresh (mem_singleton.mp hc ▸ hEq ▸ ha)⟩
    · rw [if_neg (by simp [Function.update_self, hZero])]
      refine ⟨⟨hCount, hInv.queued, ?_, hInv.reached, hInv.nodup⟩, rfl, rfl⟩
      intro u hu
      show Function.update s.indeg t (s.indeg t - 1) u = 0 ↔ s.queued u = true
      by_cases hut : u = t
      · subst hut
        rw [Function.update_self, hNotQueued]
        exact ⟨fun h => absurd h hZero, fun h => absurd h Bool.false_ne_true⟩
      · rw [Function.update_of_ne hut]
        exact hInv.zero u hu

include hD in
/-- One turn orders a block all onward predecessors of which are ordered. -/
theorem kahnTurn_returns {s : Kahn} (hInv : Queued g reachable D (fun _ => 0) s)
    (hTopo : Topological g D s.order) (hReady : s.ready ≠ []) :
    ∃ s', Returns (fun n => kahnTurn g reachable idom n s) s' ∧
      Queued g reachable D (fun _ => 0) s' ∧ Topological g D s'.order ∧
      s'.order.length = s.order.length + 1 ∧ s'.ticks = s.ticks + 1 := by
  obtain ⟨b, hMin⟩ : ∃ b, s.ready.min? = some b :=
    Option.isSome_iff_exists.mp (isSome_min?_of_ne_nil hReady)
  have hMem : b ∈ s.ready := min?_mem hMin
  have hb : g.Reachable b := hInv.reached b (mem_append_right _ hMem)
  have hNew : b ∉ s.order := fun hOld => (nodup_append.mp hInv.nodup).2.2 b hOld b hMem rfl
  have hPerm : (s.order ++ [b] ++ s.ready.erase b).Perm (s.order ++ s.ready) := by
    rw [append_assoc]
    exact (perm_cons_erase hMem).symm.append_left s.order
  have hStart : Queued g reachable D (uncounted g D b [])
      { s with ready := s.ready.erase b, order := s.order ++ [b], ticks := s.ticks + 1 } := by
    constructor
    case indeg =>
      intro t ht
      have hSplit := pending_append (D := D) hReach hNew hb ht
      have hOld := hInv.indeg t ht
      rw [Nat.add_zero] at hOld
      exact hOld.trans hSplit
    case queued =>
      exact fun t => (hInv.queued t).trans hPerm.mem_iff.symm
    case zero => exact hInv.zero
    case reached => exact fun t ht => hInv.reached t (hPerm.mem_iff.mp ht)
    case nodup => exact hPerm.nodup_iff.mpr hInv.nodup
  have hBehind : Topological g D (s.order ++ [b]) := by
    intro l c m hSplit p hp
    rcases eq_nil_or_concat m with rfl | ⟨m', x, rfl⟩
    · obtain ⟨hl, hc⟩ := append_inj' hSplit rfl
      have hcb : b = c := (cons.inj hc).1
      subst hcb
      subst hl
      have hZero := (hInv.zero b hb).mpr ((hInv.queued b).mpr (mem_append_right _ hMem))
      rw [hInv.indeg b hb, Nat.add_zero] at hZero
      exact (pending_eq_zero hReach).mp hZero p hp
    · refine hTopo l c m' ?_ p hp
      have hSplit' : s.order ++ [b] = (l ++ c :: m') ++ [x] := by
        rw [hSplit, append_assoc, concat_eq_append]
        rfl
      exact (append_inj' hSplit' rfl).1
  have hSteady (t : Kahn) (u : Nat) : Steady fun n => kahnEdge reachable idom b n t u := by
    unfold kahnEdge
    split
    · exact steady_map (dominates_steady idom u (some b)) _
    · exact steady_const _
  obtain ⟨s', hs', hInv', hOrder, hTicks⟩ := foldlM_returns
    (f := fun n => kahnEdge reachable idom b n) (l := g.succ b)
    (fun done t => Queued g reachable D (uncounted g D b done) t ∧
      t.order = s.order ++ [b] ∧ t.ticks = s.ticks + 1)
    hSteady
    (fun done t m s₁ hSplit hInv₁ => by
      obtain ⟨s₂, hs₂, hInv₂, hOrder, hTicks⟩ :=
        kahnEdge_returns hReach hD hb hSplit hInv₁.1
      exact ⟨s₂, hs₂, hInv₂, hOrder.trans hInv₁.2.1, hTicks.trans hInv₁.2.2⟩)
    ⟨hStart, rfl, rfl⟩
  have hLeft : uncounted g D b (g.succ b) = fun _ => 0 := by
    funext t
    unfold uncounted
    rw [drop_length, count_nil, ite_self]
  rw [hLeft] at hInv'
  refine ⟨s', ?_, hInv', by rw [hOrder]; exact hBehind, by rw [hOrder]; simp, hTicks⟩
  obtain ⟨n, hn⟩ := hs'
  refine ⟨n, ?_⟩
  dsimp only [kahnTurn]
  rw [hMin]
  exact hn

end Turns

theorem kahnTurn_steady (g : Cfg) (reachable : Nat → Bool) (idom : Nat → Option Nat) (s : Kahn) :
    Steady fun n => kahnTurn g reachable idom n s := by
  unfold kahnTurn
  cases s.ready.min? with
  | none => exact steady_const _
  | some b =>
    refine steady_foldlM (f := fun n => kahnEdge reachable idom b n) (fun t u => ?_) _ _
    unfold kahnEdge
    split
    · exact steady_map (dominates_steady idom u (some b)) _
    · exact steady_const _

/-- The order has reachable blocks, each once and behind its onward predecessors, and every
reachable block that is missing has a predecessor that is missing. -/
structure Ordered (g : Cfg) (D : Nat → Nat → Bool) (order : List Nat) : Prop where
  reached : ∀ b ∈ order, g.Reachable b
  nodup : order.Nodup
  topological : Topological g D order
  stuck : ∀ b, g.Reachable b → b ∉ order → ∃ p, Onward g D p b ∧ p ∉ order

theorem kahn_returns (hReach : ∀ b, reachable b = true ↔ g.Reachable b) (hD : Answers idom D)
    (ticks : Nat) : ∃ s, Returns (fun n => kahn g reachable idom
      (sources (answered g reachable D) false) ticks n) s ∧
      Ordered g D s.order ∧ ticks ≤ s.ticks := by
  have hShort (s : Kahn) (hInv : Queued g reachable D (fun _ => 0) s) :
      s.order.length ≤ g.nb := by
    have hSubset : s.order ⊆ range g.nb := fun b hb =>
      mem_range.mpr (hInv.reached b (mem_append_left _ hb)).lt
    have hLe := (subperm_of_subset (nodup_append.mp hInv.nodup).1 hSubset).length_le
    rwa [length_range] at hLe
  obtain ⟨s, hs, ⟨hInv, hTopo, hTicks⟩, hEnd⟩ := whileLoop_returns
    (fun s : Kahn => !s.ready.isEmpty) (kahnTurn g reachable idom)
    (fun s => Queued g reachable D (fun _ => 0) s ∧ Topological g D s.order ∧ ticks ≤ s.ticks)
    (fun s => g.nb - s.order.length) (kahnTurn_steady g reachable idom)
    (fun s hInv hCond => by
      have hReady : s.ready ≠ [] := by
        intro hNil
        rw [hNil] at hCond
        cases hCond
      obtain ⟨s', hs', hInv', hTopo, hLength, hTicks⟩ :=
        kahnTurn_returns hReach hD hInv.1 hInv.2.1 hReady
      refine ⟨s', hs', ⟨hInv', hTopo, by rw [hTicks]; exact Nat.le_succ_of_le hInv.2.2⟩, ?_⟩
      have := hShort s' hInv'
      omega)
    (s := kahnStart g reachable (sources (answered g reachable D) false) ticks)
    ⟨queued_start hReach ticks, fun l b m hSplit => absurd hSplit.symm (by simp [kahnStart]),
      Nat.le_refl _⟩
  have hEmpty : s.ready = [] := by simpa using hEnd
  refine ⟨s, hs, ⟨fun b hb => hInv.reached b (mem_append_left _ hb),
    (nodup_append.mp hInv.nodup).1, hTopo, ?_⟩, hTicks⟩
  intro b hb hMissing
  by_contra hNone
  push Not at hNone
  have hZero := hInv.indeg b hb
  rw [Nat.add_zero, (pending_eq_zero hReach).mpr hNone] at hZero
  have hMem := (hInv.queued b).mp ((hInv.zero b hb).mp hZero)
  rw [hEmpty, append_nil] at hMem
  exact hMissing hMem

namespace Cfg

variable (g : Cfg)

/-- An edge between reachable blocks. -/
def LiveEdge (b t : Nat) : Prop := g.Reachable b ∧ g.Edge b t

/-- A cycle of reachable blocks none of which dominates all the others. -/
def Irreducible : Prop :=
  ∃ ps, IsCycle g.LiveEdge ps ∧ ∀ h ∈ ps, ∃ x ∈ ps, ¬g.Dominates h x

end Cfg

/-- Going back around a cycle, what dominates a block dominates its predecessor, unless it
is the block itself. -/
theorem dominates_pred {h p x : Nat} (hEdge : g.Edge p x) (hne : h ≠ x)
    (hDom : g.Dominates h x) : g.Dominates h p := by
  intro k before hPath
  obtain ⟨i, hi⟩ := hDom () ((p, k) :: before) (.step hEdge hPath)
  rcases mem_cons.mp hi with hEq | hRest
  · exact absurd (congrArg Prod.fst hEq) hne
  · exact ⟨i, hRest⟩

/-- A walk to a block that the header dominates, all of whose steps into the header are
back edges, visits blocks the header dominates. -/
theorem dominates_walk {h a b : Nat} (hDom : g.Dominates h b) {ps : List Nat}
    (hBack : ∀ p ∈ a :: ps, g.LiveEdge p h → g.Dominates h p)
    (hWalk : List.IsChain g.LiveEdge (a :: (ps ++ [b]))) :
    ∀ x ∈ a :: ps, g.Dominates h x := by
  induction ps generalizing a with
  | nil =>
    intro x hx
    have hEdge : g.LiveEdge a b := by simpa using hWalk
    rw [mem_singleton.mp hx]
    by_cases hEq : h = b
    · exact hBack a mem_cons_self (hEq ▸ hEdge)
    · exact dominates_pred hEdge.2 hEq hDom
  | cons c ps ih =>
    have hParts := isChain_cons_cons.mp hWalk
    have hRest := ih (fun p hp => hBack p (mem_cons_of_mem a hp)) hParts.2
    intro x hx
    rcases mem_cons.mp hx with rfl | hx
    · by_cases hEq : h = c
      · exact hBack x mem_cons_self (hEq ▸ hParts.1)
      · exact dominates_pred hParts.1.2 hEq (hRest c mem_cons_self)
    · exact hRest x hx

theorem Ordered.complete_iff {order : List Nat} (h : Ordered g D order)
    (hD : ∀ a b, g.Reachable b → (D a b = true ↔ g.Dominates a b)) :
    (∃ b, g.Reachable b ∧ b ∉ order) ↔ g.Irreducible := by
  have hOnward (b t : Nat) : Onward g D b t ↔ g.LiveEdge b t ∧ ¬g.Dominates t b := by
    constructor
    · rintro ⟨hb, hEdge, hBack⟩
      refine ⟨⟨hb, hEdge⟩, fun hDom => ?_⟩
      rw [(hD t b hb).mpr hDom] at hBack
      cases hBack
    · rintro ⟨⟨hb, hEdge⟩, hDom⟩
      exact ⟨hb, hEdge, Bool.eq_false_iff.mpr fun hBack => hDom ((hD t b hb).mp hBack)⟩
  constructor
  · rintro ⟨b, hb, hMissing⟩
    -- among the missing blocks every one has an onward predecessor, so there is a cycle
    have hCycle : ∃ x, TransGen (Onward g D) x x := by
      by_contra hNone
      push Not at hNone
      let S := { x : Fin g.nb // g.Reachable x ∧ x.val ∉ order }
      let R : S → S → Prop := fun x y => TransGen (Onward g D) x.1 y.1
      have hIrrefl : Std.Irrefl R := ⟨fun x => hNone x.1⟩
      have hTrans : IsTrans S R := ⟨fun _ _ _ hxy hyz => TransGen.trans hxy hyz⟩
      have hWf : WellFounded R := Finite.wellFounded_of_trans_of_irrefl R
      obtain ⟨x, -, hx⟩ := hWf.has_min Set.univ ⟨⟨⟨b, hb.lt⟩, hb, hMissing⟩, trivial⟩
      obtain ⟨p, hp, hpMissing⟩ := h.stuck x.1 x.2.1 x.2.2
      exact hx ⟨⟨p, hp.1.lt⟩, hp.1, hpMissing⟩ trivial (.single hp)
    obtain ⟨x, hx⟩ := hCycle
    have hMarks : TransGen (Unmarked (Onward g D) fun _ => False) x x :=
      TransGen.mono (fun _ _ hab => ⟨not_false, hab⟩) _ _ hx
    obtain ⟨ps, hWalk, -⟩ := exists_walk hMarks
    refine ⟨x :: ps, hWalk.imp fun _ _ hab => ((hOnward _ _).mp hab).1, ?_⟩
    -- the step of the cycle into a block is no back edge
    intro c hc
    have hInto : ∃ p ∈ x :: ps, Onward g D p c := by
      have hAll : ∀ (a : Nat) (qs : List Nat), List.IsChain (Onward g D) (a :: (qs ++ [x])) →
          ∀ y ∈ qs ++ [x], ∃ p ∈ a :: qs, Onward g D p y := by
        intro a qs
        induction qs generalizing a with
        | nil =>
          intro hChain y hy
          rw [mem_singleton.mp hy]
          exact ⟨a, mem_cons_self, by simpa using hChain⟩
        | cons q qs ih =>
          intro hChain y hy
          have hParts := isChain_cons_cons.mp hChain
          rcases mem_cons.mp hy with rfl | hy
          · exact ⟨a, mem_cons_self, hParts.1⟩
          · obtain ⟨p, hp, hStep⟩ := ih q hParts.2 y hy
            exact ⟨p, mem_cons_of_mem a hp, hStep⟩
      refine hAll x ps hWalk c ?_
      rcases mem_cons.mp hc with rfl | hc
      · exact mem_append_right _ (mem_singleton_self c)
      · exact mem_append_left _ hc
    obtain ⟨p, hp, hStep⟩ := hInto
    exact ⟨p, hp, ((hOnward p c).mp hStep).2⟩
  · rintro ⟨ps, hCycle, hNoHeader⟩
    by_contra hComplete
    push Not at hComplete
    have hNonempty : ps.toFinset.Nonempty := by
      cases ps with
      | nil => exact hCycle.elim
      | cons a ps => exact ⟨a, by simp⟩
    -- the block of the cycle that is ordered first dominates the others
    obtain ⟨c, hc, hFirst⟩ := Finset.exists_min_image ps.toFinset order.idxOf hNonempty
    rw [mem_toFinset] at hc
    obtain ⟨l, m, rfl⟩ := append_of_mem hc
    have hBack : ∀ p ∈ c :: (m ++ l), g.LiveEdge p c → g.Dominates c p := by
      intro p hp hEdge
      by_contra hDom
      obtain ⟨l', m', hSplit⟩ := append_of_mem (hComplete c (hEdge.1.step hEdge.2))
      have hpl := h.topological l' c m' hSplit p ((hOnward p c).mpr ⟨hEdge, hDom⟩)
      have hNodup := h.nodup
      rw [hSplit] at hNodup
      have hcl : c ∉ l' := fun hMem =>
        (nodup_append.mp hNodup).2.2 c hMem c mem_cons_self rfl
      have hMin := hFirst p (by
        rw [mem_toFinset]
        simp only [mem_cons, mem_append] at hp ⊢
        tauto)
      rw [hSplit, idxOf_append_of_notMem hcl, idxOf_append_of_mem hpl] at hMin
      have hLt := idxOf_lt_length_of_mem hpl
      omega
    obtain ⟨x, hx, hNot⟩ := hNoHeader c hc
    refine hNot (dominates_walk (dominates_refl c) hBack hCycle.rotate x ?_)
    simp only [mem_cons, mem_append] at hx ⊢
    tauto

end B2Compiler.Passes.Builder
