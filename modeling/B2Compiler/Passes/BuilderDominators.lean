import B2Compiler.Lib.DominatorTree
import B2Compiler.Passes.BuilderDfs

/-!
# The dominator loops of the graph builder

The rounds of the builder keep a tree of supported candidates, whatever the order of the
blocks, as long as each block comes after one of its predecessors and block 0 has the
smallest position.  The loops that walk up the tree then come to an end, and rounds that
change nothing more leave the dominator tree.
-/

namespace B2Compiler.Passes.Builder

open Relation List
open Lib
open Lib.Fuel

namespace Cfg

variable (g : Cfg)

/-- The edges of the graph as steps of its paths. -/
abbrev step (b : Nat) (_ : Unit) (t : Nat) : Prop := g.Edge b t

/-- Every path from block 0 to `b` visits `a`. -/
def Dominates (a b : Nat) : Prop := Lib.Dominates g.step (0, ()) a b

end Cfg

variable {g : Cfg} {pos : Nat → Nat} {idom : Nat → Option Nat}

/-! ## Walking up the tree -/

section Walks

theorem climb_steady (pos : Nat → Nat) (idom : Nat → Option Nat) (y x : Nat) :
    Steady fun n => climb pos idom y n x :=
  whileLoop_steady (fun x => steady_const (idom x)) x

theorem intersect_steady (pos : Nat → Nat) (idom : Nat → Option Nat) (x y : Nat) :
    Steady fun n => intersect pos idom n x y := by
  refine steady_map (whileLoop_steady (fun s => ?_) (x, y)) Prod.fst
  exact steady_bind (climb_steady pos idom s.2 s.1) fun u =>
    steady_map (climb_steady pos idom u s.2) fun v => (u, v)

theorem meetPred_steady (pos : Nat → Nat) (idom : Nat → Option Nat) (acc : Option Nat) (p : Nat) :
    Steady fun n => meetPred pos idom n acc p := by
  unfold meetPred
  cases idom p with
  | none => exact steady_const (some acc)
  | some d =>
    cases acc with
    | none => exact steady_const (some (some p))
    | some q => exact steady_map (intersect_steady pos idom p q) some

theorem meetPreds_steady (pos : Nat → Nat) (idom : Nat → Option Nat) (ps : List Nat) :
    Steady fun n => meetPreds pos idom ps n :=
  steady_foldlM (meetPred_steady pos idom) ps none

/-- Positions fall along the walks, whatever the candidates are. -/
theorem climb_pos {y n x z : Nat} (h : climb pos idom y n x = some z) :
    pos z ≤ pos y ∧ pos z ≤ pos x := by
  obtain ⟨hInv, hEnd⟩ := whileLoop_inv (fun u => u = x ∨ pos y < pos x)
    (fun _ u u' hInv hCond _ => by
      have hLt : pos y < pos u := by simpa using hCond
      rcases hInv with rfl | hInv
      · exact Or.inr hLt
      · exact Or.inr hInv) h (Or.inl rfl)
  have hLe : pos z ≤ pos y := by simpa using hEnd
  rcases hInv with rfl | hInv
  · exact ⟨hLe, Nat.le_refl _⟩
  · exact ⟨hLe, by omega⟩

theorem intersect_pos {n x y z : Nat} (h : intersect pos idom n x y = some z) :
    pos z ≤ pos x ∧ pos z ≤ pos y := by
  obtain ⟨⟨u, v⟩, hLoop, rfl⟩ := Option.map_eq_some_iff.mp h
  obtain ⟨hInv, hEnd⟩ := whileLoop_inv (fun s : Nat × Nat => pos s.1 ≤ pos x ∧ pos s.2 ≤ pos y)
    (fun n s s' hInv _ hBody => by
      obtain ⟨u, hu, hRest⟩ := Option.bind_eq_some_iff.mp hBody
      obtain ⟨v, hv, rfl⟩ := Option.map_eq_some_iff.mp hRest
      have hFirst := climb_pos hu
      have hSecond := climb_pos hv
      exact ⟨Nat.le_trans hFirst.2 hInv.1, Nat.le_trans hSecond.2 hInv.2⟩) hLoop
        ⟨Nat.le_refl _, Nat.le_refl _⟩
  have hEq : u = v := by simpa using hEnd
  subst hEq
  exact hInv

variable (hForest : Forest g.step 0 pos idom)
include hForest

/-- The walk from `x` stops at the first ancestor that does not stand behind `y`. -/
theorem climb_returns {x y d e : Nat} (hx : idom x = some d) (hy : idom y = some e) :
    ∃ z, Returns (fun n => climb pos idom y n x) z ∧ Above idom z x ∧ pos z ≤ pos y ∧
      ∀ w, Above idom w x → pos w ≤ pos y → Above idom w z := by
  obtain ⟨z, hz, ⟨hAbove, hAll⟩, hEnd⟩ := whileLoop_returns
    (fun u => decide (pos y < pos u)) (fun _ u => idom u)
    (fun u => Above idom u x ∧ ∀ w, Above idom w x → pos w ≤ pos y → Above idom w u) pos
    (fun u => steady_const (idom u))
    (fun u hInv hCond => by
      have hLt : pos y < pos u := by simpa using hCond
      have hRoot : u ≠ 0 := by
        intro hEq
        have := hForest.root_le hy
        rw [hEq] at hLt
        omega
      obtain ⟨f, hf⟩ := hForest.known_above hx hInv.1
      refine ⟨f, ⟨0, hf⟩, ⟨(above_parent hf).trans hInv.1, ?_⟩, hForest.up u f hRoot hf⟩
      intro w hw hPos
      refine (hInv.2 w hw hPos).parent hf ?_
      intro hEq
      rw [hEq] at hPos
      omega)
    (s := x) ⟨.refl, fun _ hw _ => hw⟩
  exact ⟨z, hz, hAbove, by simpa using hEnd, hAll⟩

/-- Known nodes that stand at the same position are the same. -/
def Injective (pos : Nat → Nat) (idom : Nat → Option Nat) : Prop :=
  ∀ b c d e, idom b = some d → idom c = some e → pos b = pos c → b = c

/-- The loops of `intersect` come to the deepest common ancestor. -/
theorem intersect_returns (hInj : Injective pos idom) {x y d e : Nat} (hx : idom x = some d)
    (hy : idom y = some e) :
    ∃ z, Returns (fun n => intersect pos idom n x y) z ∧ Above idom z x ∧ Above idom z y ∧
      ∀ w, Above idom w x → Above idom w y → Above idom w z := by
  obtain ⟨⟨u, v⟩, hLoop, ⟨hu, hv, hAll⟩, hEnd⟩ := whileLoop_returns
    (fun s : Nat × Nat => s.1 != s.2)
    (fun n s => (climb pos idom s.2 n s.1).bind fun x =>
      (climb pos idom x n s.2).map fun y => (x, y))
    (fun s => Above idom s.1 x ∧ Above idom s.2 y ∧
      ∀ w, Above idom w x → Above idom w y → Above idom w s.1 ∧ Above idom w s.2)
    (fun s => pos s.1 + pos s.2)
    (fun s => steady_bind (climb_steady pos idom s.2 s.1) fun u =>
      steady_map (climb_steady pos idom u s.2) fun v => (u, v))
    (fun s hInv hCond => by
      obtain ⟨u, v⟩ := s
      obtain ⟨hu, hv, hAll⟩ := hInv
      obtain ⟨_, hKnownU⟩ := hForest.known_above hx hu
      obtain ⟨_, hKnownV⟩ := hForest.known_above hy hv
      obtain ⟨u', hu', hAboveU, hPosU, hAllU⟩ := climb_returns hForest hKnownU hKnownV
      obtain ⟨_, hKnownU'⟩ := hForest.known_above hKnownU hAboveU
      obtain ⟨v', hv', hAboveV, hPosV, hAllV⟩ := climb_returns hForest hKnownV hKnownU'
      refine ⟨(u', v'), ?_, ⟨hAboveU.trans hu, hAboveV.trans hv, ?_⟩, ?_⟩
      · exact Returns.bind (climb_steady pos idom v u)
          (steady_map (climb_steady pos idom u' v) _) hu' (hv'.map _)
      · intro w hwx hwy
        have hBoth := hAll w hwx hwy
        have hwu := hAllU w hBoth.1 (hForest.pos_le hBoth.2)
        exact ⟨hwu, hAllV w hBoth.2 (hForest.pos_le hwu)⟩
      · have hLeU := hForest.pos_le hAboveU
        have hLeV := hForest.pos_le hAboveV
        by_contra hNot
        -- neither of the two has moved, so they stand at the same position
        have hSame : pos u = pos v := by
          dsimp only at hNot hPosU hPosV hLeU hLeV
          omega
        have hEq := hInj u v _ _ hKnownU hKnownV hSame
        rw [hEq] at hCond
        simp at hCond)
    (s := (x, y)) ⟨.refl, .refl, fun _ hwx hwy => ⟨hwx, hwy⟩⟩
  have hEq : u = v := by simpa using hEnd
  subst hEq
  exact ⟨u, hLoop.map Prod.fst, hu, hv, fun w hwx hwy => (hAll w hwx hwy).1⟩

theorem dominates_returns (a b : Nat) :
    ∃ r, Returns (fun n => dominates idom a n (some b)) r ∧ (r = true ↔ Above idom a b) := by
  induction hPos : pos b using Nat.strongRecOn generalizing b with
  | _ k ih =>
    by_cases hab : b = a
    · refine ⟨true, ⟨1, if_pos hab⟩, ?_⟩
      exact ⟨fun _ => hab ▸ .refl, fun _ => rfl⟩
    cases hb : idom b with
    | none =>
      refine ⟨false, ⟨2, ?_⟩, ?_⟩
      · dsimp only [dominates]
        rw [if_neg hab, hb]
        rfl
      constructor
      · exact fun h => absurd h Bool.false_ne_true
      · intro hAbove
        rcases ReflTransGen.cases_head hAbove with hEq | ⟨d, hStep, -⟩
        · exact absurd hEq hab
        · rw [hb] at hStep
          cases hStep
    | some d =>
      by_cases hRoot : b = 0
      · subst hRoot
        have hSelf := hForest.atRoot
        refine ⟨false, ⟨1, ?_⟩, ?_⟩
        · dsimp only [dominates]
          rw [if_neg hab, if_pos hSelf]
        · constructor
          · exact fun h => absurd h Bool.false_ne_true
          · exact fun hAbove => absurd (hForest.above_root hAbove).symm hab
      · have hLt := hForest.up b d hRoot hb
        have hne : ¬idom b = some b := by
          intro hSelf
          rw [hb] at hSelf
          cases hSelf
          omega
        obtain ⟨r, ⟨n, hn⟩, hr⟩ := ih (pos d) (hPos ▸ hLt) d rfl
        refine ⟨r, ⟨n + 1, ?_⟩, ?_⟩
        · dsimp only [dominates] at hn ⊢
          rw [if_neg hab, if_neg hne, hb]
          exact hn
        · rw [hr]
          constructor
          · exact fun hAbove => hAbove.trans (above_parent hb)
          · exact fun hAbove => hAbove.parent hb (Ne.symm hab)

end Walks

theorem dominates_steady (idom : Nat → Option Nat) (a : Nat) (x : Option Nat) :
    Steady fun n => dominates idom a n x := by
  intro n
  induction n generalizing x with
  | zero =>
    intro m r _ h
    cases h
  | succ n ih =>
    intro m r hnm h
    obtain ⟨m, rfl⟩ : ∃ k, m = k + 1 := ⟨m - 1, by omega⟩
    cases x with
    | none => exact h
    | some x =>
      dsimp only [dominates] at h ⊢
      split at h
      · rename_i hEq
        rw [if_pos hEq]
        exact h
      rename_i hEq
      rw [if_neg hEq]
      split at h
      · rename_i hSelf
        rw [if_pos hSelf]
        exact h
      · rename_i hSelf
        rw [if_neg hSelf]
        exact ih (idom x) m r (by omega) h

/-- The predecessors that have been processed. -/
def known (idom : Nat → Option Nat) (ps : List Nat) : List Nat :=
  ps.filter fun p => (idom p).isSome

theorem mem_known {ps : List Nat} {p : Nat} :
    p ∈ known idom ps ↔ p ∈ ps ∧ ∃ d, idom p = some d := by
  rw [known, mem_filter, Option.isSome_iff_exists]

/-- What processed predecessors have in common: their deepest common ancestor. -/
def Meet (idom : Nat → Option Nat) (ps : List Nat) : Option Nat → Prop
  | none => known idom ps = []
  | some z => known idom ps ≠ [] ∧ (∀ p ∈ known idom ps, Above idom z p) ∧
      ∀ w, (∀ p ∈ known idom ps, Above idom w p) → Above idom w z

theorem meetPreds_returns (hForest : Forest g.step 0 pos idom) (hInj : Injective pos idom)
    (ps : List Nat) : ∃ r, Returns (fun n => meetPreds pos idom ps n) r ∧ Meet idom ps r := by
  refine foldlM_returns (f := fun n => meetPred pos idom n) (Meet idom)
    (meetPred_steady pos idom) ?_ rfl
  intro done p rest acc _ hAcc
  have hSnoc : known idom (done ++ [p]) =
      known idom done ++ (if (idom p).isSome then [p] else []) := by
    rw [known, known, filter_append, filter_singleton]
    cases (idom p).isSome
    · rfl
    · rfl
  cases hp : idom p with
  | none =>
    have hSame : known idom (done ++ [p]) = known idom done := by
      rw [hSnoc, hp]
      exact append_nil _
    refine ⟨acc, ⟨0, ?_⟩, ?_⟩
    · dsimp only [meetPred]
      rw [hp]
    cases acc with
    | none => exact hSame.trans hAcc
    | some z =>
      unfold Meet at hAcc ⊢
      rw [hSame]
      exact hAcc
  | some d =>
    have hMore : known idom (done ++ [p]) = known idom done ++ [p] := by
      rw [hSnoc, hp]
      rfl
    cases acc with
    | none =>
      have hNone : known idom done = [] := hAcc
      refine ⟨some p, ⟨0, ?_⟩, ?_⟩
      · dsimp only [meetPred]
        rw [hp]
      unfold Meet
      rw [hMore, hNone]
      refine ⟨cons_ne_nil _ _, ?_, ?_⟩
      · intro q hq
        rw [mem_singleton.mp hq]
        exact .refl
      · exact fun w hw => hw p (mem_singleton_self p)
    | some z =>
      obtain ⟨hNonempty, hAbove, hDeepest⟩ := hAcc
      obtain ⟨q, hq⟩ := exists_mem_of_ne_nil _ hNonempty
      obtain ⟨e, hKnownQ⟩ := (mem_known.mp hq).2
      obtain ⟨_, hKnownZ⟩ := hForest.known_above hKnownQ (hAbove q hq)
      obtain ⟨z', hz', hAboveP, hAboveZ, hAll⟩ :=
        intersect_returns hForest hInj hp hKnownZ
      refine ⟨some z', ?_, ?_⟩
      · obtain ⟨n, hn⟩ := hz'.map some
        refine ⟨n, ?_⟩
        dsimp only [meetPred]
        rw [hp]
        exact hn
      · unfold Meet
        rw [hMore]
        refine ⟨by simp, ?_, ?_⟩
        · intro c hc
          rcases mem_append.mp hc with hc | hc
          · exact hAboveZ.trans (hAbove c hc)
          · rw [mem_singleton.mp hc]
            exact hAboveP
        · intro w hw
          refine hAll w (hw p (by simp)) (hDeepest w ?_)
          exact fun c hc => hw c (mem_append_left _ hc)

/-- The new dominator stands no later than any processed predecessor, whatever the
candidates are. -/
theorem meetPreds_pos {ps : List Nat} {n : Nat} {r : Option Nat}
    (h : meetPreds pos idom ps n = some r) {p d : Nat} (hMem : p ∈ ps) (hp : idom p = some d) :
    ∃ z, r = some z ∧ pos z ≤ pos p := by
  have hInv := foldlM_inv (fun done acc => ∀ p ∈ known idom done, ∃ z, acc = some z ∧ pos z ≤ pos p)
    (fun done a rest acc acc' _ hInv hStep => by
      intro p hp
      obtain ⟨hDone, e, hKnown⟩ := mem_known.mp hp
      unfold meetPred at hStep
      cases ha : idom a with
      | none =>
        rw [ha] at hStep
        cases hStep
        rcases mem_append.mp hDone with hOld | hNew
        · exact hInv p (mem_known.mpr ⟨hOld, e, hKnown⟩)
        · rw [mem_singleton.mp hNew, ha] at hKnown
          cases hKnown
      | some f =>
        rw [ha] at hStep
        cases acc with
        | none =>
          cases hStep
          refine ⟨a, rfl, ?_⟩
          rcases mem_append.mp hDone with hOld | hNew
          · obtain ⟨z, hz, -⟩ := hInv p (mem_known.mpr ⟨hOld, e, hKnown⟩)
            cases hz
          · rw [mem_singleton.mp hNew]
        | some q =>
          obtain ⟨z, hz, rfl⟩ := Option.map_eq_some_iff.mp hStep
          have hLe := intersect_pos hz
          refine ⟨z, rfl, ?_⟩
          rcases mem_append.mp hDone with hOld | hNew
          · obtain ⟨q', hq', hPos⟩ := hInv p (mem_known.mpr ⟨hOld, e, hKnown⟩)
            cases hq'
            omega
          · rw [mem_singleton.mp hNew]
            exact hLe.1) h (fun p hp => absurd hp not_mem_nil)
  exact hInv p (mem_known.mpr ⟨hMem, d, hp⟩)

/-! ## Rounds -/

/-- What the rounds need of the order behind its first block: it has the other reachable
blocks, positions tell them apart, each block comes after a predecessor with a smaller
position, and block 0 comes again only with an edge to itself. -/
structure Sweepable (g : Cfg) (pos : Nat → Nat) (rest : List Nat) : Prop where
  mem : ∀ b, g.Reachable b ↔ b = 0 ∨ b ∈ rest
  inj : ∀ b c, g.Reachable b → g.Reachable c → pos b = pos c → b = c
  parent : ∀ l b m, rest = l ++ b :: m → b ≠ 0 → ∃ v, g.Edge v b ∧ (v = 0 ∨ v ∈ l) ∧ pos v < pos b
  self : 0 ∈ rest → g.Edge 0 0

theorem ReversePostorder.sweepable {rpo rest : List Nat} (h : ReversePostorder g rpo)
    (hEntry : StartsAtEntry g rpo) (hRpo : rpo = 0 :: rest) : Sweepable g (rpoPos rpo) rest := by
  obtain ⟨m₀, hForm, hOther⟩ := hEntry
  have hRest : rest = m₀ ∨ (rest = 0 :: m₀ ∧ g.Edge 0 0) := by
    rw [hRpo] at hForm
    rcases hForm with hForm | ⟨hForm, hSelf⟩
    · exact Or.inl (cons.inj hForm).2
    · exact Or.inr ⟨(cons.inj hForm).2, hSelf⟩
  -- behind a block other than block 0 there is no block 0
  have hBehind (l : List Nat) (b : Nat) (m : List Nat) (hSplit : rest = l ++ b :: m)
      (hb : b ≠ 0) : 0 ∉ m := by
    intro hMem
    rcases hRest with hRest | ⟨hRest, -⟩
    · exact hOther (by rw [← hRest, hSplit]; simp [hMem])
    · rw [hSplit] at hRest
      rcases cons_eq_append_cons hRest.symm with ⟨-, hEq, -⟩ | ⟨l', -, hTail⟩
      · exact hb hEq.symm
      · exact hOther (by rw [hTail]; simp [hMem])
  constructor
  case mem =>
    intro b
    rw [← h.mem b, hRpo, mem_cons]
  case inj =>
    exact fun b c hb hc => rpoPos_inj ((h.mem b).mpr hb) ((h.mem c).mpr hc)
  case parent =>
    intro l b m hSplit hb
    have hAll : rpo = (0 :: l) ++ b :: m := by
      rw [hRpo, hSplit]
      rfl
    obtain ⟨v, hEdge, hv⟩ := h.parent (0 :: l) b m hAll hb
    have hNodup := h.nodup
    rw [hAll, filter_append, filter_cons_of_pos (l := m) (by simpa using hb),
      nodup_append] at hNodup
    have hbm : b ∉ m := fun hMem =>
      (nodup_cons.mp hNodup.2.1).1 (mem_filter.mpr ⟨hMem, by simpa using hb⟩)
    have hvm : v ∉ b :: m := by
      intro hMem
      by_cases hZero : v = 0
      · rw [hZero] at hMem
        rcases mem_cons.mp hMem with hEq | hMem
        · exact hb hEq.symm
        · exact hBehind l b m hSplit hb hMem
      · refine hNodup.2.2 v (mem_filter.mpr ⟨hv, by simpa using hZero⟩) v ?_ rfl
        rcases mem_cons.mp hMem with hEq | hMem
        · rw [hEq]
          exact mem_cons_self
        · exact mem_cons_of_mem b (mem_filter.mpr ⟨hMem, by simpa using hZero⟩)
    refine ⟨v, hEdge, mem_cons.mp hv, ?_⟩
    rw [hAll]
    exact rpoPos_lt hv hvm hbm
  case self =>
    intro hMem
    rcases hRest with hRest | ⟨-, hSelf⟩
    · exact absurd (hRest ▸ hMem) hOther
    · exact hSelf

theorem mem_preds {reachable : Nat → Bool} (hReach : ∀ b, reachable b = true ↔ g.Reachable b)
    {p b : Nat} : p ∈ preds g reachable b ↔ g.Edge p b ∧ g.Reachable p := by
  simp only [preds, mem_flatMap, mem_range, mem_map, mem_filter,
    Bool.and_eq_true, beq_iff_eq, hReach]
  constructor
  · rintro ⟨a, -, t, ⟨hEdge, rfl, -, ha⟩, rfl⟩
    exact ⟨hEdge, ha⟩
  · rintro ⟨hEdge, hp⟩
    exact ⟨p, hp.lt, b, ⟨hEdge, rfl, hp.step hEdge, hp⟩, rfl⟩

/-- The candidates form a tree of reachable blocks. -/
structure Candidates (g : Cfg) (pos : Nat → Nat) (idom : Nat → Option Nat) : Prop where
  forest : Forest g.step 0 pos idom
  inside : ∀ b d, idom b = some d → g.Reachable b

section Rounds

variable {reachable : Nat → Bool} {rest : List Nat}
  (hReach : ∀ b, reachable b = true ↔ g.Reachable b) (hSweep : Sweepable g pos rest)
include hSweep

theorem Candidates.injective (h : Candidates g pos idom) : Injective pos idom :=
  fun b c d e hb hc => hSweep.inj b c (h.inside b d hb) (h.inside c e hc)

include hReach

/-- Processing a block keeps the tree; a block that keeps its candidate has what its
predecessors have in common. -/
theorem visitBlock_returns {l m : List Nat} {b : Nat} (hSplit : rest = l ++ b :: m) (s : Doms)
    (h : Candidates g pos s.idom) (hDone : ∀ c ∈ l, ∃ d, s.idom c = some d) :
    ∃ s', Returns (fun n => visitBlock pos (preds g reachable) n s b) s' ∧
      Candidates g pos s'.idom ∧ (∃ d, s'.idom b = some d) ∧
      (∀ c d, s.idom c = some d → ∃ e, s'.idom c = some e) ∧ s'.ticks = s.ticks + 1 ∧
      (s'.changed = false → s.changed = false ∧ s'.idom = s.idom ∧
        Meet s.idom (preds g reachable b) (s.idom b)) := by
  have hb : g.Reachable b :=
    (hSweep.mem b).mpr (Or.inr (by rw [hSplit]; exact mem_append_right l mem_cons_self))
  obtain ⟨r, hr, hMeet⟩ := meetPreds_returns h.forest (h.injective hSweep) (preds g reachable b)
  have hVisit := hr.map fun newIdom =>
    if newIdom ≠ none ∧ s.idom b ≠ newIdom then
      (⟨Function.update s.idom b newIdom, true, s.ticks + 1⟩ : Doms)
    else { s with ticks := s.ticks + 1 }
  -- a predecessor has been processed, so that there is a new candidate
  obtain ⟨v, hEdge, e, hv, hPos⟩ : ∃ v, g.Edge v b ∧ ∃ e, s.idom v = some e ∧
      (b ≠ 0 → pos v < pos b) := by
    by_cases hZero : b = 0
    · have hSelf := hSweep.self (by rw [hSplit, hZero]; simp)
      exact ⟨0, hZero ▸ hSelf, 0, h.forest.atRoot, fun hne => absurd hZero hne⟩
    · obtain ⟨v, hEdge, hWhere, hPos⟩ := hSweep.parent l b m hSplit hZero
      rcases hWhere with rfl | hMem
      · exact ⟨0, hEdge, 0, h.forest.atRoot, fun _ => hPos⟩
      · obtain ⟨e, he⟩ := hDone v hMem
        exact ⟨v, hEdge, e, he, fun _ => hPos⟩
  have hPred : v ∈ known s.idom (preds g reachable b) :=
    mem_known.mpr ⟨(mem_preds hReach).mpr ⟨hEdge, h.inside v e hv⟩, e, hv⟩
  cases r with
  | none =>
    have hNone : known s.idom (preds g reachable b) = [] := hMeet
    rw [hNone] at hPred
    cases hPred
  | some z =>
    obtain ⟨hNonempty, hAbove, hDeepest⟩ := hMeet
    by_cases hSame : s.idom b = some z
    · rw [if_neg (by simp [hSame])] at hVisit
      refine ⟨_, hVisit, h, ⟨z, hSame⟩, fun c d hc => ⟨d, hc⟩, rfl, fun hChanged => ?_⟩
      refine ⟨hChanged, rfl, ?_⟩
      rw [hSame]
      exact ⟨hNonempty, hAbove, hDeepest⟩
    · rw [if_pos ⟨Option.some_ne_none z, hSame⟩] at hVisit
      have hRoot : b ≠ 0 := by
        intro hZero
        subst hZero
        have hSelf := hSweep.self (by rw [hSplit]; simp)
        have hKnown : 0 ∈ known s.idom (preds g reachable 0) :=
          mem_known.mpr ⟨(mem_preds hReach).mpr ⟨hSelf, hb⟩, 0, h.forest.atRoot⟩
        have hz := h.forest.above_root (hAbove 0 hKnown)
        rw [hz] at hSame
        exact hSame h.forest.atRoot
      obtain ⟨f, hf⟩ := h.forest.known_above hv (hAbove v hPred)
      have hLt : pos z < pos b := by
        have hLe := h.forest.pos_le (hAbove v hPred)
        have hLt := hPos hRoot
        omega
      have hSupports := h.forest.supports_meet hNonempty (fun p hp =>
        ⟨(), ((mem_preds hReach).mp (mem_known.mp hp).1).1⟩) hAbove hDeepest
      have hForest := h.forest.update hRoot hf hLt hSupports
      refine ⟨_, hVisit, ⟨hForest, ?_⟩, ⟨z, Function.update_self ..⟩, ?_, rfl, ?_⟩
      · intro c d hc
        by_cases hcb : c = b
        · rw [hcb]
          exact hb
        · exact h.inside c d ((Function.update_of_ne hcb ..).symm.trans hc)
      · intro c d hc
        by_cases hcb : c = b
        · exact ⟨z, by rw [hcb]; exact Function.update_self ..⟩
        · exact ⟨d, (Function.update_of_ne hcb ..).trans hc⟩
      · exact fun hChanged => absurd hChanged (by simp)

/-- A round that changes nothing has found what the predecessors of each block have in
common. -/
def Settled (g : Cfg) (reachable : Nat → Bool) (idom : Nat → Option Nat) (rest : List Nat) :
    Prop :=
  ∀ b ∈ rest, (∃ d, idom b = some d) ∧ Meet idom (preds g reachable b) (idom b)

theorem round_returns (s : Doms) (h : Candidates g pos s.idom) :
    ∃ s', Returns (fun n => round pos (preds g reachable) rest n s) s' ∧
      Candidates g pos s'.idom ∧ s'.ticks = s.ticks + rest.length ∧
      (s'.changed = false → Settled g reachable s'.idom rest) := by
  obtain ⟨s', hs', h', hTicks, -, hSettled⟩ := foldlM_returns
    (f := fun n => visitBlock pos (preds g reachable) n) (l := rest)
    (fun done t => Candidates g pos t.idom ∧ t.ticks = s.ticks + done.length ∧
      (∀ c ∈ done, ∃ d, t.idom c = some d) ∧
      (t.changed = false → Settled g reachable t.idom done))
    (fun t b => steady_map (meetPreds_steady pos t.idom _) _)
    (fun done b m t hSplit hInv => by
      obtain ⟨hCand, hTicks, hDone, hSettled⟩ := hInv
      obtain ⟨t', ht', hCand', hKnown, hGrow, hTicks', hChanged⟩ :=
        visitBlock_returns hReach hSweep hSplit t hCand hDone
      refine ⟨t', ht', hCand', ?_, ?_, ?_⟩
      · rw [hTicks', hTicks, length_append, length_singleton]
        omega
      · intro c hc
        rcases mem_append.mp hc with hc | hc
        · obtain ⟨d, hd⟩ := hDone c hc
          exact hGrow c d hd
        · rw [mem_singleton.mp hc]
          exact hKnown
      · intro hSame c hc
        obtain ⟨hBefore, hIdom, hMeet⟩ := hChanged hSame
        rcases mem_append.mp hc with hc | hc
        · rw [hIdom]
          exact hSettled hBefore c hc
        · rw [mem_singleton.mp hc]
          refine ⟨hKnown, ?_⟩
          rw [hIdom]
          exact hMeet)
    (s := { s with changed := false })
    ⟨h, rfl, fun c hc => absurd hc not_mem_nil, fun _ c hc => absurd hc not_mem_nil⟩
  exact ⟨s', hs', h', hTicks, hSettled⟩

end Rounds

theorem round_steady (pos : Nat → Nat) (preds : Nat → List Nat) (rest : List Nat) (s : Doms) :
    Steady fun n => round pos preds rest n s :=
  steady_foldlM (f := fun n => visitBlock pos preds n)
    (fun t b => steady_map (meetPreds_steady pos t.idom (preds b)) _) rest _

end B2Compiler.Passes.Builder
