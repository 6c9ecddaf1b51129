import Mathlib.Algebra.Order.Ring.Nat
import B2Compiler.Passes.BuilderOrder
import Mathlib.Algebra.Order.BigOperators.Group.Finset

/-!
# The reverse postorder of the graph builder

The depth first search finishes every reachable block once, except that it does not mark
block 0 as being on its stack at the start: the first edge into block 0 pushes the block a
second time.  Where that happens decides whether block 0 stands before all other blocks in
the order (`Cfg.EntryClear`).
-/

namespace B2Compiler.Passes.Builder

open Relation List
open Lib.Fuel
open Lib.Marking

namespace Cfg

variable (g : Cfg)

/-- A control flow edge. -/
def Edge (b t : Nat) : Prop := t ∈ g.succ b

/-- A way along edges. -/
def Leads (b t : Nat) : Prop := ReflTransGen g.Edge b t

def Reachable (b : Nat) : Prop := g.Leads 0 b

/-- Block 0 is not reached from any of its successors before its first edge to itself. -/
def EntryClear : Prop := ∀ s ∈ (g.succ 0).takeWhile (· ≠ 0), ¬g.Leads s 0

variable {g}

theorem Edge.lt {b t : Nat} (h : g.Edge b t) : t < g.nb := g.succ_lt b t h

theorem Reachable.lt {b : Nat} (h : g.Reachable b) : b < g.nb := by
  rcases ReflTransGen.cases_tail h with hEq | ⟨_, _, hEdge⟩
  · rw [hEq]
    exact g.nonempty
  · exact hEdge.lt

theorem Reachable.step {b t : Nat} (h : g.Reachable b) (hEdge : g.Edge b t) : g.Reachable t :=
  ReflTransGen.tail h hEdge

end Cfg

variable {g : Cfg}

theorem reachability_returns (g : Cfg) (ticks : Nat) :
    ∃ r, Returns (fun n => reachability g ticks n) r :=
  search_returns (Finset.range g.nb) (fun b t ht => Finset.mem_range.mpr (g.succ_lt b t ht)) _

theorem reachability_spec {ticks n : Nat} {r : State Nat}
    (h : reachability g ticks n = some r) (b : Nat) : r.marked b = true ↔ g.Reachable b := by
  rw [marked_search h b]
  constructor
  · rintro (hWall | ⟨a, ha, -, hSteps⟩)
    · cases hWall
    · rw [mem_singleton] at ha
      subst ha
      exact ReflTransGen.mono (fun _ _ hPast => hPast.1) _ _ hSteps
  · intro hReach
    exact Or.inr ⟨0, mem_singleton_self 0, rfl,
      ReflTransGen.mono (fun _ _ hEdge => ⟨hEdge, rfl⟩) _ _ hReach⟩

namespace Dfs

/-- The search has come to the block, as far as it knows. -/
def Seen (s : Dfs) (b : Nat) : Prop := s.done b = true ∨ s.onStack b = true

/-- The blocks on the stack, the top first. -/
def blocks (s : Dfs) : List Nat := s.work.map Prod.fst

end Dfs

/-- What a turn does with the block on top: it passes over an edge, pushes the target of
an edge, or finishes the block. -/
inductive Turned (g : Cfg) (s : Dfs) (b i : Nat) (rest : List (Nat × Nat)) : Dfs → Prop
  | skip (t : Nat) (hEdge : (g.succ b)[i]? = some t) (hSeen : s.Seen t) :
      Turned g s b i rest { s with work := (b, i + 1) :: rest, ticks := s.ticks + 1 }
  | push (t : Nat) (hEdge : (g.succ b)[i]? = some t) (hNew : ¬s.Seen t) : Turned g s b i rest
        { s with
          onStack := Function.update s.onStack t true
          work := (t, 0) :: (b, i + 1) :: rest
          ticks := s.ticks + 1 }
  | finish (hEnd : (g.succ b)[i]? = none) : Turned g s b i rest
        { work := rest
          done := Function.update s.done b true
          onStack := Function.update s.onStack b false
          post := b :: s.post
          ticks := s.ticks + 1 }

theorem dfsTurn_cases {reachable : Nat → Bool} {s : Dfs} {b i : Nat} {rest : List (Nat × Nat)}
    (hWork : s.work = (b, i) :: rest) (hReach : ∀ t, g.Edge b t → reachable t = true) :
    Turned g s b i rest (dfsTurn g reachable s) := by
  rw [dfsTurn, hWork]
  dsimp only
  cases hEdge : (g.succ b)[i]? with
  | none => exact .finish hEdge
  | some t =>
    have hMem : g.Edge b t := mem_of_getElem? hEdge
    dsimp only
    rw [hReach t hMem]
    by_cases hSeen : s.Seen t
    · have hCond : (true && !s.done t && !s.onStack t) = false := by
        rcases hSeen with h | h
        · simp [h]
        · simp [h]
      rw [if_neg (by rw [hCond]; exact Bool.false_ne_true)]
      exact .skip t hEdge hSeen
    · have hCond : (true && !s.done t && !s.onStack t) = true := by
        unfold Dfs.Seen at hSeen
        push Not at hSeen
        simp [Bool.eq_false_iff.mpr hSeen.1, Bool.eq_false_iff.mpr hSeen.2]
      rw [if_pos hCond]
      exact .push t hEdge hSeen

/-! ## The invariant -/

/-- Stack and finished blocks of the search.  Block 0 may occur twice. -/
structure Walked (g : Cfg) (s : Dfs) : Prop where
  reachable : ∀ b ∈ s.blocks ++ s.post, g.Reachable b
  linked : List.IsChain (fun x y : Nat × Nat => g.Edge y.1 x.1) s.work
  bottom : ∀ l b i, s.work = l ++ [(b, i)] → b = 0
  root : s.work = [] → ∃ m, s.post = 0 :: m
  marked : ∀ b, b ≠ 0 → (s.onStack b = true ↔ b ∈ s.blocks)
  done : ∀ b, s.done b = true ↔ b ∈ s.post
  nodup : ((s.blocks ++ s.post).filter (· ≠ 0)).Nodup
  passed : ∀ b i, (b, i) ∈ s.work → ∀ j < i, ∀ t, (g.succ b)[j]? = some t → s.Seen t
  closed : ∀ b ∈ s.post, ∀ t, g.Edge b t → s.Seen t
  parent : ∀ l b m, s.post = l ++ b :: m → b ≠ 0 → ∃ v, g.Edge v b ∧ (v ∈ s.blocks ∨ v ∈ l)

theorem walked_start (g : Cfg) (ticks : Nat) : Walked g (dfsStart ticks) := by
  constructor
  case reachable =>
    intro b hb
    have hZero : b = 0 := by simpa [dfsStart, Dfs.blocks] using hb
    rw [hZero]
    exact .refl
  case linked =>
    exact isChain_singleton _
  case bottom =>
    intro l b i hWork
    have hMem : (b, i) ∈ (dfsStart ticks).work := by
      rw [hWork]
      exact mem_append_right l (mem_singleton_self _)
    exact congrArg Prod.fst (mem_singleton.mp hMem)
  case root =>
    exact fun hEmpty => absurd hEmpty (cons_ne_nil _ _)
  case marked =>
    intro b hb
    simp [dfsStart, Dfs.blocks, hb]
  case done =>
    intro b
    simp [dfsStart]
  case nodup =>
    simp [dfsStart, Dfs.blocks]
  case passed =>
    intro b i hMem j hj
    have hi : i = 0 := congrArg Prod.snd (mem_singleton.mp hMem)
    omega
  case closed =>
    exact fun b hb => absurd hb not_mem_nil
  case parent =>
    intro l b m hPost
    exact absurd hPost.symm (by simp [dfsStart])

section Turn

variable {s s' : Dfs} {b i : Nat} {rest : List (Nat × Nat)}

theorem Turned.seen (h : Turned g s b i rest s') {t : Nat} (hSeen : s.Seen t) : s'.Seen t := by
  cases h with
  | skip t' => exact hSeen
  | push t' =>
    rcases hSeen with h | h
    · exact Or.inl h
    · right
      by_cases ht : t = t'
      · rw [ht]
        exact Function.update_self ..
      · exact (Function.update_of_ne ht ..).trans h
  | finish =>
    by_cases hb : t = b
    · left
      rw [hb]
      exact Function.update_self ..
    · rcases hSeen with h | h
      · exact Or.inl ((Function.update_of_ne hb ..).trans h)
      · exact Or.inr ((Function.update_of_ne hb ..).trans h)

/-- A block other than block 0 that the search has not come to is on no list. -/
theorem Walked.fresh (hWalk : Walked g s) {t : Nat} (hZero : t ≠ 0) (hNew : ¬s.Seen t) :
    t ∉ s.blocks ++ s.post := by
  intro hMem
  rcases mem_append.mp hMem with h | h
  · exact hNew (Or.inr ((hWalk.marked t hZero).mpr h))
  · exact hNew (Or.inl ((hWalk.done t).mpr h))

section

variable (hWalk : Walked g s) (hWork : s.work = (b, i) :: rest)
include hWalk hWork

/-- The bottom of the stack stays when the index on top changes. -/
theorem Walked.bottom_replace (j : Nat) : ∀ l c k, (b, j) :: rest = l ++ [(c, k)] → c = 0 := by
  intro l c k hLast
  cases l with
  | nil =>
    have hParts := cons.inj hLast
    have hbc : b = c := congrArg Prod.fst hParts.1
    exact hbc ▸ hWalk.bottom [] b i (by rw [hWork, hParts.2]; rfl)
  | cons e l =>
    refine hWalk.bottom ((b, i) :: l) c k ?_
    rw [hWork, cons_append]
    exact congrArg _ (cons.inj hLast).2

/-- The path on the stack stays a path when the index on top changes. -/
theorem Walked.linked_replace (j : Nat) :
    ((b, j) :: rest).IsChain fun upper lower => g.Edge lower.1 upper.1 := by
  have hLinked := hWalk.linked
  rw [hWork] at hLinked
  cases rest with
  | nil => exact isChain_singleton _
  | cons y m =>
    have hParts := isChain_cons_cons.mp hLinked
    exact isChain_cons_cons.mpr ⟨hParts.1, hParts.2⟩

/-- The successors before the raised index are seen when the one passed over is. -/
theorem Walked.passed_bump {t : Nat} {s' : Dfs} (hEdge : (g.succ b)[i]? = some t)
    (hKeep : ∀ v, s.Seen v → s'.Seen v) (hSeen : s'.Seen t) :
    ∀ c k, (c, k) ∈ (b, i + 1) :: rest → ∀ j < k, ∀ t', (g.succ c)[j]? = some t' → s'.Seen t' := by
  intro c k hMem j hj t' ht'
  rcases mem_cons.mp hMem with hEq | hRest
  · cases hEq
    rcases Nat.lt_succ_iff_lt_or_eq.mp hj with hlt | rfl
    · exact hKeep t' (hWalk.passed b i (by rw [hWork]; exact mem_cons_self) j hlt t' ht')
    · rw [hEdge] at ht'
      cases ht'
      exact hSeen
  · exact hKeep t' (hWalk.passed c k (by rw [hWork]; exact mem_cons_of_mem _ hRest) j hj t' ht')

theorem Turned.walked_skip {t : Nat} (hEdge : (g.succ b)[i]? = some t) (hSeen : s.Seen t) :
    Walked g { s with work := (b, i + 1) :: rest, ticks := s.ticks + 1 } := by
  have hBlocks : ({ s with work := (b, i + 1) :: rest, ticks := s.ticks + 1 } : Dfs).blocks =
      s.blocks := by
    simp [Dfs.blocks, hWork]
  constructor
  case reachable =>
    rw [hBlocks]
    exact hWalk.reachable
  case linked =>
    exact hWalk.linked_replace hWork (i + 1)
  case bottom =>
    exact hWalk.bottom_replace hWork (i + 1)
  case root =>
    exact fun hEmpty => absurd hEmpty (cons_ne_nil _ _)
  case marked =>
    rw [hBlocks]
    exact hWalk.marked
  case done =>
    exact hWalk.done
  case nodup =>
    rw [hBlocks]
    exact hWalk.nodup
  case passed =>
    exact hWalk.passed_bump hWork hEdge (fun _ h => h) hSeen
  case closed =>
    exact hWalk.closed
  case parent =>
    rw [hBlocks]
    exact hWalk.parent

theorem Turned.walked_push {t : Nat} (hEdge : (g.succ b)[i]? = some t) (hNew : ¬s.Seen t) :
    Walked g { s with
      onStack := Function.update s.onStack t true
      work := (t, 0) :: (b, i + 1) :: rest
      ticks := s.ticks + 1 } := by
  have hTurn : Turned g s b i rest _ := .push t hEdge hNew
  have hEdge' : g.Edge b t := mem_of_getElem? hEdge
  have hb : b ∈ s.blocks := by simp [Dfs.blocks, hWork]
  set s' : Dfs := { s with
      onStack := Function.update s.onStack t true
      work := (t, 0) :: (b, i + 1) :: rest
      ticks := s.ticks + 1 } with hs'
  have hBlocks : s'.blocks = t :: s.blocks := by simp [Dfs.blocks, hWork, hs']
  have hSeen : s'.Seen t := Or.inr (Function.update_self ..)
  constructor
  case reachable =>
    rw [hBlocks]
    intro c hc
    rcases mem_cons.mp hc with rfl | hc
    · exact (hWalk.reachable b (mem_append_left _ hb)).step hEdge'
    · exact hWalk.reachable c hc
  case linked =>
    exact isChain_cons_cons.mpr ⟨hEdge', hWalk.linked_replace hWork (i + 1)⟩
  case bottom =>
    intro l c k hLast
    cases l with
    | nil => exact absurd (cons.inj hLast).2 (cons_ne_nil _ _)
    | cons e l => exact hWalk.bottom_replace hWork (i + 1) l c k (cons.inj hLast).2
  case root =>
    exact fun hEmpty => absurd hEmpty (cons_ne_nil _ _)
  case marked =>
    intro c hc
    rw [hBlocks, mem_cons]
    by_cases hct : c = t
    · have hTrue : s'.onStack c = true := by
        rw [hct]
        exact Function.update_self ..
      exact ⟨fun _ => Or.inl hct, fun _ => hTrue⟩
    · have hSame : s'.onStack c = s.onStack c := Function.update_of_ne hct ..
      rw [hSame, hWalk.marked c hc]
      exact ⟨Or.inr, fun h => h.resolve_left hct⟩
  case done =>
    exact hWalk.done
  case nodup =>
    rw [hBlocks, cons_append]
    by_cases ht : t = 0
    · rw [filter_cons_of_neg (by simp [ht])]
      exact hWalk.nodup
    · rw [filter_cons_of_pos (by simp [ht])]
      refine nodup_cons.mpr ⟨?_, hWalk.nodup⟩
      intro hMem
      exact hWalk.fresh ht hNew (mem_filter.mp hMem).1
  case passed =>
    intro c k hMem j hj t' ht'
    rcases mem_cons.mp hMem with hEq | hMem
    · cases hEq
      exact absurd hj (Nat.not_lt_zero j)
    · exact hWalk.passed_bump hWork hEdge (fun _ => hTurn.seen) hSeen c k hMem j hj t' ht'
  case closed =>
    exact fun c hc t' ht' => hTurn.seen (hWalk.closed c hc t' ht')
  case parent =>
    intro l c m hPost hc
    obtain ⟨v, hv, hWhere⟩ := hWalk.parent l c m hPost hc
    refine ⟨v, hv, ?_⟩
    rw [hBlocks]
    rcases hWhere with h | h
    · exact Or.inl (mem_cons_of_mem t h)
    · exact Or.inr h

theorem Turned.walked_finish (hEnd : (g.succ b)[i]? = none) : Walked g
    { work := rest
      done := Function.update s.done b true
      onStack := Function.update s.onStack b false
      post := b :: s.post
      ticks := s.ticks + 1 } := by
  have hTurn : Turned g s b i rest _ := .finish hEnd
  set s' : Dfs := { work := rest
                    done := Function.update s.done b true
                    onStack := Function.update s.onStack b false
                    post := b :: s.post
                    ticks := s.ticks + 1 } with hs'
  have hBlocks : s.blocks = b :: s'.blocks := by simp [Dfs.blocks, hWork, hs']
  have hPerm : (s'.blocks ++ s'.post).Perm (s.blocks ++ s.post) := by
    rw [hBlocks]
    exact perm_middle
  have hLinked := hWalk.linked
  rw [hWork] at hLinked
  constructor
  case reachable =>
    exact fun c hc => hWalk.reachable c (hPerm.mem_iff.mp hc)
  case linked =>
    exact hLinked.tail
  case bottom =>
    intro l c k hLast
    refine hWalk.bottom ((b, i) :: l) c k ?_
    rw [hWork, cons_append]
    exact congrArg _ hLast
  case root =>
    intro hEmpty
    have hRest : rest = [] := hEmpty
    have hb := hWalk.bottom [] b i (by rw [hWork, hRest]; rfl)
    exact ⟨s.post, congrArg (· :: s.post) hb⟩
  case marked =>
    intro c hc
    by_cases hcb : c = b
    · have hFalse : s'.onStack c = false := by
        rw [hcb]
        exact Function.update_self ..
      have hNot : c ∉ s'.blocks := by
        intro hMem
        have hNodup := hWalk.nodup
        rw [hBlocks, cons_append, filter_cons_of_pos (by simp [← hcb, hc])] at hNodup
        refine (nodup_cons.mp hNodup).1 (mem_filter.mpr ⟨?_, by simp [← hcb, hc]⟩)
        exact mem_append_left _ (hcb ▸ hMem)
      rw [hFalse]
      exact ⟨fun h => absurd h Bool.false_ne_true, fun h => absurd h hNot⟩
    · have hSame : s'.onStack c = s.onStack c := Function.update_of_ne hcb ..
      rw [hSame, hWalk.marked c hc, hBlocks, mem_cons]
      exact ⟨fun h => h.resolve_left hcb, Or.inr⟩
  case done =>
    intro c
    by_cases hcb : c = b
    · have hTrue : s'.done c = true := by
        rw [hcb]
        exact Function.update_self ..
      exact ⟨fun _ => hcb ▸ mem_cons_self, fun _ => hTrue⟩
    · have hSame : s'.done c = s.done c := Function.update_of_ne hcb ..
      rw [hSame, hWalk.done c]
      exact ⟨mem_cons_of_mem b, fun h => (mem_cons.mp h).resolve_left hcb⟩
  case nodup =>
    exact ((hPerm.filter _).nodup_iff).mpr hWalk.nodup
  case passed =>
    intro c k hMem j hj t' ht'
    refine hTurn.seen (hWalk.passed c k ?_ j hj t' ht')
    rw [hWork]
    exact mem_cons_of_mem _ hMem
  case closed =>
    intro c hc t' ht'
    rcases mem_cons.mp hc with rfl | hc
    · obtain ⟨j, hj, hGet⟩ := getElem_of_mem ht'
      refine hTurn.seen (hWalk.passed c i (by rw [hWork]; exact mem_cons_self) j ?_ t' ?_)
      · have := getElem?_eq_none_iff.mp hEnd
        omega
      · rw [getElem?_eq_getElem hj, hGet]
    · exact hTurn.seen (hWalk.closed c hc t' ht')
  case parent =>
    intro l c m hPost hc
    cases l with
    | nil =>
      -- the block just finished was pushed by the block below it
      have hcb : b = c := (cons.inj hPost).1
      subst hcb
      cases hRest : rest with
      | nil => exact absurd (hWalk.bottom [] b i (by rw [hWork, hRest]; rfl)) hc
      | cons y m =>
        rw [hRest] at hLinked
        refine ⟨y.1, (isChain_cons_cons.mp hLinked).1, Or.inl ?_⟩
        simp [Dfs.blocks, hs', hRest]
    | cons c' l =>
      have hParts := cons.inj hPost
      obtain ⟨v, hv, hWhere⟩ := hWalk.parent l c m hParts.2 hc
      refine ⟨v, hv, ?_⟩
      rw [← hParts.1, mem_cons]
      rw [hBlocks, mem_cons] at hWhere
      rcases hWhere with (h | h) | h
      · exact Or.inr (Or.inl h)
      · exact Or.inl h
      · exact Or.inr (Or.inr h)

end

theorem Turned.walked (h : Turned g s b i rest s') (hWalk : Walked g s)
    (hWork : s.work = (b, i) :: rest) : Walked g s' := by
  cases h with
  | skip t hEdge hSeen => exact walked_skip hWalk hWork hEdge hSeen
  | push t hEdge hNew => exact walked_push hWalk hWork hEdge hNew
  | finish hEnd => exact walked_finish hWalk hWork hEnd

end Turn

/-! ## Where block 0 is pushed a second time -/

/-- The stages of a search that comes back to block 0 from block 0 first, if at all: it has
not come back, its second visit is on the stack or finished, or it is over. -/
inductive Early (g : Cfg) (s : Dfs) : Prop
  | before (l : List (Nat × Nat)) (i : Nat) (hWork : s.work = l ++ [(0, i)]) (hNew : ¬s.Seen 0)
      (hFrom : ∀ b ∈ l.map Prod.fst ++ s.post, b ≠ 0 ∧
        ∃ a ∈ (g.succ 0).takeWhile (· ≠ 0), g.Leads a b)
  | again (l : List (Nat × Nat)) (i j : Nat) (hWork : s.work = l ++ [(0, j), (0, i)])
      (hSeen : s.Seen 0) (hOther : 0 ∉ l.map Prod.fst ++ s.post) (hSelf : g.Edge 0 0)
  | back (i : Nat) (m : List Nat) (hWork : s.work = [(0, i)]) (hPost : s.post = 0 :: m)
      (hOther : 0 ∉ m) (hSelf : g.Edge 0 0)
  | done (m : List Nat) (hWork : s.work = [])
      (hPost : s.post = 0 :: m ∨ (s.post = 0 :: 0 :: m ∧ g.Edge 0 0)) (hOther : 0 ∉ m)

/-- The stages of a search that comes back to block 0 from another block `p` first. -/
inductive Late (g : Cfg) (s : Dfs) : Prop
  | before (l : List (Nat × Nat)) (i : Nat) (hWork : s.work = l ++ [(0, i)])
      (hNew : ¬s.Seen 0) (hOther : 0 ∉ l.map Prod.fst ++ s.post)
  | again (p : Nat) (l : List (Nat × Nat)) (j : Nat) (m : List (Nat × Nat))
      (hWork : s.work = l ++ (0, j) :: m) (hSeen : s.Seen 0)
      (hOther : 0 ∉ l.map Prod.fst ++ s.post) (hp : p ≠ 0) (hEdge : g.Edge p 0)
      (hBelow : p ∈ m.map Prod.fst)
  | back (p : Nat) (l m : List Nat) (hPost : s.post = l ++ 0 :: m) (hOther : 0 ∉ m)
      (hp : p ≠ 0) (hEdge : g.Edge p 0) (hWhere : p ∈ s.blocks ∨ p ∈ l)

section Stages

variable {s s' : Dfs} {b i : Nat} {rest : List (Nat × Nat)}

/-- A successor of block 0 behind others that are not block 0 itself. -/
theorem mem_takeWhile_succ {l : List Nat} {i t : Nat} (hGet : l[i]? = some t) (ht : t ≠ 0)
    (hBefore : ∀ j < i, ∀ c, l[j]? = some c → c ≠ 0) : t ∈ l.takeWhile (· ≠ 0) := by
  induction l generalizing i with
  | nil => cases hGet
  | cons a l ih =>
    cases i with
    | zero =>
      cases hGet
      rw [takeWhile_cons_of_pos (by simpa using ht)]
      exact mem_cons_self
    | succ i =>
      have ha : a ≠ 0 := hBefore 0 (Nat.succ_pos i) a rfl
      rw [takeWhile_cons_of_pos (by simpa using ha)]
      refine mem_cons_of_mem a (ih (by simpa using hGet) ?_)
      intro j hj c hc
      exact hBefore (j + 1) (Nat.succ_lt_succ hj) c (by simpa using hc)

/-- Such a successor stands in front of an edge to block 0, and of the end of the list. -/
theorem index_of_mem_takeWhile {l : List Nat} {i t : Nat} (h : t ∈ l.takeWhile (· ≠ 0))
    (hNext : ∀ c, l[i]? = some c → c = 0) : ∃ j < i, l[j]? = some t := by
  induction l generalizing i with
  | nil => cases h
  | cons a l ih =>
    have ha : a ≠ 0 := by
      intro hZero
      rw [takeWhile_cons_of_neg (by simp [hZero])] at h
      cases h
    cases i with
    | zero => exact absurd (hNext a rfl) ha
    | succ i =>
      rw [takeWhile_cons_of_pos (by simpa using ha)] at h
      rcases mem_cons.mp h with rfl | h
      · exact ⟨0, Nat.succ_pos i, rfl⟩
      · obtain ⟨j, hj, hAt⟩ := ih h fun c hc => hNext c (by simpa using hc)
        exact ⟨j + 1, Nat.succ_lt_succ hj, by simpa using hAt⟩

/-- The two ways a stack with a known bottom may begin. -/
theorem cons_eq_append_cons {α : Type} {x y : α} {rest l m : List α} (h : x :: rest = l ++ y :: m) :
    (l = [] ∧ x = y ∧ rest = m) ∨ ∃ l', l = x :: l' ∧ rest = l' ++ y :: m := by
  cases l with
  | nil =>
    have hParts := cons.inj h
    exact Or.inl ⟨rfl, hParts.1, hParts.2⟩
  | cons a l =>
    have hParts := cons.inj h
    exact Or.inr ⟨l, by rw [hParts.1], hParts.2⟩

theorem not_seen_push {t c : Nat} {work : List (Nat × Nat)} {ticks : Nat} (hne : c ≠ t)
    (hNew : ¬s.Seen c) :
    ¬({ s with onStack := Function.update s.onStack t true, work, ticks } : Dfs).Seen c := by
  rintro (hDone | hStack)
  · exact hNew (Or.inl hDone)
  · exact hNew (Or.inr ((Function.update_of_ne hne ..).symm.trans hStack))

theorem not_seen_finish {c : Nat} {work : List (Nat × Nat)} {post : List Nat} {ticks : Nat}
    (hne : c ≠ b) (hNew : ¬s.Seen c) :
    ¬({ work, done := Function.update s.done b true,
        onStack := Function.update s.onStack b false, post, ticks } : Dfs).Seen c := by
  rintro (hDone | hStack)
  · exact hNew (Or.inl ((Function.update_of_ne hne ..).symm.trans hDone))
  · exact hNew (Or.inr ((Function.update_of_ne hne ..).symm.trans hStack))

theorem Turned.early (h : Turned g s b i rest s') (hWalk : Walked g s)
    (hWork : s.work = (b, i) :: rest) (hClear : g.EntryClear) (hEarly : Early g s) :
    Early g s' := by
  cases hEarly with
  | done m hEmpty =>
    rw [hWork] at hEmpty
    cases hEmpty
  | back k m hRoot hPost hOther hSelf =>
    rw [hWork] at hRoot
    obtain ⟨rfl, rfl⟩ : b = 0 ∧ rest = [] := by
      have hParts := cons.inj hRoot
      exact ⟨congrArg Prod.fst hParts.1, hParts.2⟩
    cases h with
    | skip t hEdge hSeen => exact .back (i + 1) m rfl hPost hOther hSelf
    | push t hEdge hNew =>
      have hZero : 0 ∈ s.post := by
        rw [hPost]
        exact mem_cons_self
      exact absurd (hWalk.closed 0 hZero t (mem_of_getElem? hEdge)) hNew
    | finish hEnd =>
      refine .done m rfl (Or.inr ⟨?_, hSelf⟩) hOther
      show 0 :: s.post = _
      rw [hPost]
  | again l k j hStack hSeen hOther hSelf =>
    rw [hWork] at hStack
    rcases cons_eq_append_cons hStack with ⟨rfl, hTop, hRest⟩ | ⟨l', rfl, hRest⟩
    · cases hTop
      subst hRest
      cases h with
      | skip t hEdge hSeenT => exact .again [] k (i + 1) rfl hSeen hOther hSelf
      | push t hEdge hNew =>
        have ht : t ≠ 0 := fun hEq => hNew (hEq ▸ hSeen)
        refine .again [(t, 0)] k (i + 1) rfl ?_ ?_ hSelf
        · exact Turned.seen (.push t hEdge hNew) hSeen
        · exact not_mem_cons_of_ne_of_not_mem (Ne.symm ht) hOther
      | finish hEnd => exact .back k s.post rfl rfl hOther hSelf
    · have hb : b ≠ 0 := by
        intro hEq
        exact hOther (by simp [hEq])
      cases h with
      | skip t hEdge hSeenT =>
        exact .again ((b, i + 1) :: l') k j (by rw [hRest]; rfl) hSeen (by simpa using hOther)
          hSelf
      | push t hEdge hNew =>
        have ht : t ≠ 0 := fun hEq => hNew (hEq ▸ hSeen)
        refine .again ((t, 0) :: (b, i + 1) :: l') k j (by rw [hRest]; rfl) ?_ ?_ hSelf
        · exact Turned.seen (.push t hEdge hNew) hSeen
        · exact not_mem_cons_of_ne_of_not_mem (Ne.symm ht) hOther
      | finish hEnd =>
        refine .again l' k j hRest (Turned.seen (.finish hEnd) hSeen) ?_ hSelf
        exact fun hMem => hOther (perm_middle.mem_iff.mp hMem)
  | before l k hStack hNew hFrom =>
    rw [hWork] at hStack
    -- the earlier successors of block 0 were seen, so that none of them is block 0
    have hFirst : b = 0 → ∀ j < i, ∀ c, (g.succ 0)[j]? = some c → c ≠ 0 := by
      intro hb j hj c hc hZero
      refine hNew (hZero ▸ hWalk.passed 0 i ?_ j hj c hc)
      rw [hWork, hb]
      exact mem_cons_self
    have hTarget (t : Nat) (ht : (g.succ b)[i]? = some t)
        (hl : (l = [] ∧ b = 0) ∨ b ∈ l.map Prod.fst) :
        t ≠ 0 → ∃ a ∈ (g.succ 0).takeWhile (· ≠ 0), g.Leads a t := by
      intro hZero
      rcases hl with ⟨-, hb⟩ | hb
      · subst hb
        exact ⟨t, mem_takeWhile_succ ht hZero (hFirst rfl), .refl⟩
      · obtain ⟨-, a, ha, hLeads⟩ := hFrom b (mem_append_left _ hb)
        exact ⟨a, ha, hLeads.tail (mem_of_getElem? ht)⟩
    rcases cons_eq_append_cons hStack with ⟨rfl, hTop, hRest⟩ | ⟨l', rfl, hRest⟩
    · cases hTop
      subst hRest
      cases h with
      | skip t hEdge hSeenT => exact .before [] (i + 1) rfl hNew hFrom
      | push t hEdge hNewT =>
        by_cases ht : t = 0
        · subst ht
          have hSeen : Function.update s.onStack 0 true 0 = true := Function.update_self ..
          refine .again [] (i + 1) 0 rfl (Or.inr hSeen) ?_ (mem_of_getElem? hEdge)
          exact fun hMem => (hFrom 0 hMem).1 rfl
        · refine .before [(t, 0)] (i + 1) rfl ?_ ?_
          · exact not_seen_push (Ne.symm ht) hNew
          · intro c hc
            rcases mem_cons.mp hc with rfl | hc
            · exact ⟨ht, hTarget c hEdge (Or.inl ⟨rfl, rfl⟩) ht⟩
            · exact hFrom c hc
      | finish hEnd => exact .done s.post rfl (Or.inl rfl) fun hMem => (hFrom 0 hMem).1 rfl
    · have hb : b ∈ ((b, i) :: l').map Prod.fst := by simp
      have hZero := (hFrom b (mem_append_left _ hb)).1
      cases h with
      | skip t hEdge hSeenT => exact .before ((b, i + 1) :: l') k (by rw [hRest]; rfl) hNew hFrom
      | push t hEdge hNewT =>
        have ht : t ≠ 0 := by
          intro hEq
          obtain ⟨-, a, ha, hLeads⟩ := hFrom b (mem_append_left _ hb)
          exact hClear a ha (hLeads.tail (hEq ▸ mem_of_getElem? hEdge))
        refine .before ((t, 0) :: (b, i + 1) :: l') k (by rw [hRest]; rfl) ?_ ?_
        · exact not_seen_push (Ne.symm ht) hNew
        · intro c hc
          rcases mem_cons.mp hc with rfl | hc
          · exact ⟨ht, hTarget c hEdge (Or.inr hb) ht⟩
          · exact hFrom c hc
      | finish hEnd =>
        refine .before l' k hRest ?_ ?_
        · exact not_seen_finish (Ne.symm hZero) hNew
        intro c hc
        refine hFrom c ?_
        rcases mem_append.mp hc with hc | hc
        · exact mem_append_left _ (mem_cons_of_mem b hc)
        · rcases mem_cons.mp hc with rfl | hc
          · exact mem_append_left _ hb
          · exact mem_append_right _ hc

/-- When the search comes to the end of block 0's edges, or to its first edge to itself,
without having come back, everything reached before is finished, so that block 0 is
clear. -/
theorem entryClear_of_root (hWalk : Walked g s) (hWork : s.work = [(0, i)]) (hNew : ¬s.Seen 0)
    (hOther : 0 ∉ s.post) (hNext : ∀ t, (g.succ 0)[i]? = some t → t = 0) : g.EntryClear := by
  have hBlocks : s.blocks = [0] := by simp [Dfs.blocks, hWork]
  have hFinished (t : Nat) (hSeen : s.Seen t) : t ∈ s.post := by
    rcases hSeen with hDone | hStack
    · exact (hWalk.done t).mp hDone
    · by_cases ht : t = 0
      · exact absurd (ht ▸ Or.inr hStack) hNew
      · have hMem := (hWalk.marked t ht).mp hStack
        rw [hBlocks, mem_singleton] at hMem
        exact absurd hMem ht
  have hClosed : ∀ a ∈ s.post, ∀ c, g.Leads a c → c ∈ s.post := by
    intro a ha c hLeads
    induction hLeads with
    | refl => exact ha
    | tail _ hEdge ih => exact hFinished _ (hWalk.closed _ ih _ hEdge)
  intro a ha hLeads
  refine hOther (hClosed a (hFinished a ?_) 0 hLeads)
  obtain ⟨j, hj, hAt⟩ := index_of_mem_takeWhile ha hNext
  exact hWalk.passed 0 i (by rw [hWork]; exact mem_cons_self) j hj a hAt

theorem Turned.late (h : Turned g s b i rest s') (hWalk : Walked g s)
    (hWork : s.work = (b, i) :: rest) (hClear : ¬g.EntryClear) (hLate : Late g s) :
    Late g s' := by
  cases hLate with
  | before l k hStack hNew hOther =>
    rw [hWork] at hStack
    rcases cons_eq_append_cons hStack with ⟨rfl, hTop, hRest⟩ | ⟨l', rfl, hRest⟩
    · cases hTop
      subst hRest
      cases h with
      | skip t hEdge hSeenT => exact .before [] (i + 1) rfl hNew hOther
      | push t hEdge hNewT =>
        by_cases ht : t = 0
        · subst ht
          refine absurd (entryClear_of_root hWalk hWork hNew hOther ?_) hClear
          intro t ht
          rw [hEdge] at ht
          exact (Option.some.inj ht).symm
        · refine .before [(t, 0)] (i + 1) rfl (not_seen_push (Ne.symm ht) hNew) ?_
          exact not_mem_cons_of_ne_of_not_mem (Ne.symm ht) hOther
      | finish hEnd =>
        refine absurd (entryClear_of_root hWalk hWork hNew hOther ?_) hClear
        intro t ht
        rw [hEnd] at ht
        cases ht
    · have hb : b ≠ 0 := fun hEq => hOther (by simp [hEq])
      cases h with
      | skip t hEdge hSeenT =>
        exact .before ((b, i + 1) :: l') k (by rw [hRest]; rfl) hNew (by simpa using hOther)
      | push t hEdge hNewT =>
        by_cases ht : t = 0
        · subst ht
          have hSeen : Function.update s.onStack 0 true 0 = true := Function.update_self ..
          refine .again b [] 0 ((b, i + 1) :: rest) rfl (Or.inr hSeen) ?_ hb
            (mem_of_getElem? hEdge) mem_cons_self
          exact fun hMem => hOther (mem_append_right _ hMem)
        · refine .before ((t, 0) :: (b, i + 1) :: l') k (by rw [hRest]; rfl)
            (not_seen_push (Ne.symm ht) hNew) ?_
          exact not_mem_cons_of_ne_of_not_mem (Ne.symm ht) hOther
      | finish hEnd =>
        refine .before l' k hRest (not_seen_finish (Ne.symm hb) hNew) ?_
        exact fun hMem => hOther (perm_middle.mem_iff.mp hMem)
  | again p l j m hStack hSeen hOther hp hEdge0 hBelow =>
    rw [hWork] at hStack
    rcases cons_eq_append_cons hStack with ⟨rfl, hTop, hRest⟩ | ⟨l', rfl, hRest⟩
    · cases hTop
      subst hRest
      cases h with
      | skip t hEdge hSeenT => exact .again p [] (i + 1) rest rfl hSeen hOther hp hEdge0 hBelow
      | push t hEdge hNew =>
        have ht : t ≠ 0 := fun hEq => hNew (hEq ▸ hSeen)
        refine .again p [(t, 0)] (i + 1) rest rfl (Turned.seen (.push t hEdge hNew) hSeen)
          ?_ hp hEdge0 hBelow
        exact not_mem_cons_of_ne_of_not_mem (Ne.symm ht) hOther
      | finish hEnd => exact .back p [] s.post rfl hOther hp hEdge0 (Or.inl hBelow)
    · have hb : b ≠ 0 := fun hEq => hOther (by simp [hEq])
      cases h with
      | skip t hEdge hSeenT =>
        exact .again p ((b, i + 1) :: l') j m (by rw [hRest]; rfl) hSeen (by simpa using hOther)
          hp hEdge0 hBelow
      | push t hEdge hNew =>
        have ht : t ≠ 0 := fun hEq => hNew (hEq ▸ hSeen)
        refine .again p ((t, 0) :: (b, i + 1) :: l') j m (by rw [hRest]; rfl)
          (Turned.seen (.push t hEdge hNew) hSeen) ?_ hp hEdge0 hBelow
        exact not_mem_cons_of_ne_of_not_mem (Ne.symm ht) hOther
      | finish hEnd =>
        refine .again p l' j m hRest (Turned.seen (.finish hEnd) hSeen) ?_ hp hEdge0 hBelow
        exact fun hMem => hOther (perm_middle.mem_iff.mp hMem)
  | back p l m hPost hOther hp hEdge0 hWhere =>
    have hBlocks : s.blocks = b :: rest.map Prod.fst := by simp [Dfs.blocks, hWork]
    cases h with
    | skip t hEdge hSeenT =>
      refine .back p l m hPost hOther hp hEdge0 (hWhere.imp_left ?_)
      intro hMem
      rw [hBlocks] at hMem
      exact hMem
    | push t hEdge hNew =>
      refine .back p l m hPost hOther hp hEdge0 (hWhere.imp_left ?_)
      intro hMem
      rw [hBlocks] at hMem
      exact mem_cons_of_mem t hMem
    | finish hEnd =>
      refine .back p (b :: l) m ?_ hOther hp hEdge0 ?_
      · show b :: s.post = _
        rw [hPost]
        rfl
      rw [hBlocks, mem_cons] at hWhere
      rw [mem_cons]
      rcases hWhere with (hEq | hRest) | hFinished
      · exact Or.inr (Or.inl hEq)
      · exact Or.inl hRest
      · exact Or.inr (Or.inr hFinished)

end Stages

/-! ## The search ends -/

instance (s : Dfs) (b : Nat) : Decidable (s.Seen b) :=
  inferInstanceAs (Decidable (_ ∨ _))

/-- The edges the search may still look at. -/
def Dfs.weight (g : Cfg) (s : Dfs) : Nat :=
  ((Finset.range g.nb).filter fun b => ¬s.Seen b).sum (fun b => (g.succ b).length + 2) +
    (s.work.map fun e => (g.succ e.1).length - e.2 + 1).sum

theorem Turned.weight_lt {s s' : Dfs} {b i : Nat} {rest : List (Nat × Nat)}
    (h : Turned g s b i rest s') (hWork : s.work = (b, i) :: rest) :
    s'.weight g < s.weight g := by
  have hSubset : ((Finset.range g.nb).filter fun c => ¬s'.Seen c) ⊆
      (Finset.range g.nb).filter fun c => ¬s.Seen c := by
    intro c hc
    obtain ⟨hRange, hNew⟩ := Finset.mem_filter.mp hc
    exact Finset.mem_filter.mpr ⟨hRange, fun hSeen => hNew (h.seen hSeen)⟩
  have hLe := Finset.sum_le_sum_of_subset (f := fun c => (g.succ c).length + 2) hSubset
  unfold Dfs.weight
  rw [hWork, map_cons, sum_cons]
  cases h with
  | skip t hEdge hSeen =>
    have hi := (List.getElem?_eq_some_iff.mp hEdge).1
    rw [map_cons, sum_cons]
    dsimp only at hLe ⊢
    have hSame : ((Finset.range g.nb).filter fun c => ¬Dfs.Seen
        { s with work := (b, i + 1) :: rest, ticks := s.ticks + 1 } c) =
        (Finset.range g.nb).filter fun c => ¬s.Seen c := rfl
    rw [hSame]
    omega
  | push t hEdge hNew =>
    have hi := (List.getElem?_eq_some_iff.mp hEdge).1
    have ht : t ∈ (Finset.range g.nb).filter fun c => ¬s.Seen c :=
      Finset.mem_filter.mpr ⟨Finset.mem_range.mpr (g.succ_lt b t (mem_of_getElem? hEdge)), hNew⟩
    have hSum := Finset.sum_erase_add _ (fun c => (g.succ c).length + 2) ht
    have hErase := Finset.sum_le_sum_of_subset (f := fun c => (g.succ c).length + 2)
      (Finset.subset_erase.mpr ⟨hSubset, fun hMem =>
        (Finset.mem_filter.mp hMem).2 (Or.inr (Function.update_self ..))⟩)
    rw [map_cons, sum_cons, map_cons, sum_cons]
    dsimp only at hSum hErase ⊢
    omega
  | finish hEnd =>
    dsimp only at hLe ⊢
    omega

theorem turn_of_cond {reachable : Nat → Bool} (hReach : ∀ b, reachable b = true ↔ g.Reachable b)
    {s : Dfs} (hWalk : Walked g s) (hCond : (!s.work.isEmpty) = true) :
    ∃ b i rest, s.work = (b, i) :: rest ∧ Turned g s b i rest (dfsTurn g reachable s) := by
  cases hWork : s.work with
  | nil =>
    rw [hWork] at hCond
    cases hCond
  | cons e rest =>
    obtain ⟨b, i⟩ := e
    refine ⟨b, i, rest, rfl, dfsTurn_cases hWork ?_⟩
    intro t hEdge
    have hb : b ∈ s.blocks ++ s.post := by simp [Dfs.blocks, hWork]
    exact (hReach t).mpr ((hWalk.reachable b hb).step hEdge)

theorem postorder_steady (g : Cfg) (reachable : Nat → Bool) (ticks : Nat) :
    Steady fun n => postorder g reachable ticks n :=
  whileLoop_steady (fun s => steady_const (some (dfsTurn g reachable s))) _

theorem postorder_returns {reachable : Nat → Bool}
    (hReach : ∀ b, reachable b = true ↔ g.Reachable b) (ticks : Nat) :
    ∃ d, Returns (fun n => postorder g reachable ticks n) d := by
  obtain ⟨d, hd, -⟩ := whileLoop_returns (fun s : Dfs => !s.work.isEmpty)
    (fun _ s => some (dfsTurn g reachable s)) (Walked g) (Dfs.weight g)
    (fun s => steady_const (some (dfsTurn g reachable s)))
    (fun s hWalk hCond => by
      obtain ⟨b, i, rest, hWork, hTurn⟩ := turn_of_cond hReach hWalk hCond
      exact ⟨_, ⟨0, rfl⟩, hTurn.walked hWalk hWork, hTurn.weight_lt hWork⟩)
    (walked_start g ticks)
  exact ⟨d, hd⟩

theorem postorder_inv {reachable : Nat → Bool}
    (hReach : ∀ b, reachable b = true ↔ g.Reachable b) {ticks n : Nat} {d : Dfs}
    (h : postorder g reachable ticks n = some d) :
    Walked g d ∧ d.work = [] ∧ (g.EntryClear → Early g d) ∧ (¬g.EntryClear → Late g d) := by
  have hStart : ¬(dfsStart ticks).Seen 0 := by
    rintro (hDone | hStack)
    · cases hDone
    · cases hStack
  obtain ⟨⟨hWalk, hEarly, hLate⟩, hEnd⟩ := whileLoop_inv
    (fun s => Walked g s ∧ (g.EntryClear → Early g s) ∧ (¬g.EntryClear → Late g s))
    (fun _ s s' hInv hCond hBody => by
      cases hBody
      obtain ⟨b, i, rest, hWork, hTurn⟩ := turn_of_cond hReach hInv.1 hCond
      exact ⟨hTurn.walked hInv.1 hWork,
        fun hClear => hTurn.early hInv.1 hWork hClear (hInv.2.1 hClear),
        fun hClear => hTurn.late hInv.1 hWork hClear (hInv.2.2 hClear)⟩) h
    ⟨walked_start g ticks, fun _ => .before [] 0 rfl hStart fun b hb => absurd hb not_mem_nil,
      fun _ => .before [] 0 rfl hStart not_mem_nil⟩
  exact ⟨hWalk, by simpa using hEnd, hEarly, hLate⟩

theorem foldl_pos_of_not_mem {m : List Nat} {k b : Nat} {pos : Nat → Nat} (h : b ∉ m) :
    (m.zipIdx k).foldl (fun pos e => Function.update pos e.1 e.2) pos b = pos b := by
  induction m generalizing k pos with
  | nil => rfl
  | cons a m ih =>
    rw [mem_cons, not_or] at h
    rw [zipIdx_cons, foldl_cons, ih h.2]
    exact Function.update_of_ne h.1 ..

/-- The position of a block is where it stands last. -/
theorem rpoPos_append {l m : List Nat} {b : Nat} (h : b ∉ m) :
    rpoPos (l ++ b :: m) b = l.length := by
  rw [rpoPos, zipIdx_append, foldl_append, zipIdx_cons, foldl_cons, foldl_pos_of_not_mem h]
  exact (Function.update_self ..).trans (Nat.zero_add _)

theorem exists_last {l : List Nat} {b : Nat} (h : b ∈ l) : ∃ l₁ l₂, l = l₁ ++ b :: l₂ ∧ b ∉ l₂ := by
  obtain ⟨s, t, hSplit, hNot⟩ := eq_append_cons_of_mem (mem_reverse.mpr h)
  refine ⟨t.reverse, s.reverse, ?_, fun hMem => hNot (mem_reverse.mp hMem)⟩
  have hBack := congrArg reverse hSplit
  rw [reverse_reverse, reverse_append, reverse_cons] at hBack
  simpa using hBack

theorem rpoPos_inj {rpo : List Nat} {b c : Nat} (hb : b ∈ rpo) (hc : c ∈ rpo)
    (h : rpoPos rpo b = rpoPos rpo c) : b = c := by
  obtain ⟨l₁, m₁, hSplit₁, hNot₁⟩ := exists_last hb
  obtain ⟨l₂, m₂, hSplit₂, hNot₂⟩ := exists_last hc
  have hPos₁ : rpoPos rpo b = l₁.length := hSplit₁ ▸ rpoPos_append hNot₁
  have hPos₂ : rpoPos rpo c = l₂.length := hSplit₂ ▸ rpoPos_append hNot₂
  have hLen : l₁.length = l₂.length := by omega
  have hEq := append_inj (hSplit₁.symm.trans hSplit₂) hLen
  exact (cons.inj hEq.2).1

/-- A block that stands before the last place of another one, but not behind it, has the
smaller position. -/
theorem rpoPos_lt {l m : List Nat} {v b : Nat} (hv : v ∈ l) (hvm : v ∉ b :: m) (hbm : b ∉ m) :
    rpoPos (l ++ b :: m) v < rpoPos (l ++ b :: m) b := by
  obtain ⟨l₁, l₂, hSplit, hNot⟩ := exists_last hv
  have hLen : l.length = l₁.length + (l₂.length + 1) := by
    rw [hSplit, length_append, length_cons]
  have hv' : v ∉ l₂ ++ b :: m := by
    rw [mem_append, not_or]
    exact ⟨hNot, hvm⟩
  have hPos : rpoPos (l ++ b :: m) v = l₁.length := by
    have hAll : l ++ b :: m = l₁ ++ v :: (l₂ ++ b :: m) := by
      rw [hSplit, append_assoc, cons_append]
    rw [hAll]
    exact rpoPos_append hv'
  rw [hPos, rpoPos_append hbm]
  omega

/-- The order starts with block 0 and has the reachable blocks, the others once, each after
a predecessor. -/
structure ReversePostorder (g : Cfg) (rpo : List Nat) : Prop where
  head : ∃ rest, rpo = 0 :: rest
  mem : ∀ b, b ∈ rpo ↔ g.Reachable b
  nodup : (rpo.filter (· ≠ 0)).Nodup
  parent : ∀ l b m, rpo = l ++ b :: m → b ≠ 0 → ∃ v, g.Edge v b ∧ v ∈ l

/-- Block 0 stands once, or twice in a row and has an edge to itself. -/
def StartsAtEntry (g : Cfg) (rpo : List Nat) : Prop :=
  ∃ m, (rpo = 0 :: m ∨ (rpo = 0 :: 0 :: m ∧ g.Edge 0 0)) ∧ 0 ∉ m

/-- A predecessor of block 0 stands before the last place of block 0. -/
def EntryBehind (g : Cfg) (rpo : List Nat) : Prop :=
  ∃ p, p ≠ 0 ∧ g.Edge p 0 ∧ p ∈ rpo ∧ rpoPos rpo p < rpoPos rpo 0

theorem postorder_spec {reachable : Nat → Bool}
    (hReach : ∀ b, reachable b = true ↔ g.Reachable b) {ticks n : Nat} {d : Dfs}
    (h : postorder g reachable ticks n = some d) :
    ReversePostorder g d.post ∧ (g.EntryClear → StartsAtEntry g d.post) ∧
      (¬g.EntryClear → EntryBehind g d.post) := by
  obtain ⟨hWalk, hEmpty, hEarly, hLate⟩ := postorder_inv hReach h
  have hBlocks : d.blocks = [] := by simp [Dfs.blocks, hEmpty]
  obtain ⟨rest, hHead⟩ := hWalk.root hEmpty
  have hNodup : (d.post.filter (· ≠ 0)).Nodup := by
    have hAll := hWalk.nodup
    rw [hBlocks] at hAll
    exact hAll
  have hFinished (t : Nat) (hSeen : d.Seen t) : t ∈ d.post := by
    rcases hSeen with hDone | hStack
    · exact (hWalk.done t).mp hDone
    by_cases ht : t = 0
    · rw [ht, hHead]
      exact mem_cons_self
    · have hMem := (hWalk.marked t ht).mp hStack
      rw [hBlocks] at hMem
      cases hMem
  refine ⟨⟨⟨rest, hHead⟩, ?_, hNodup, ?_⟩, ?_, ?_⟩
  · intro b
    constructor
    · exact fun hMem => hWalk.reachable b (mem_append_right _ hMem)
    intro hLeads
    induction hLeads with
    | refl =>
      rw [hHead]
      exact mem_cons_self
    | tail _ hEdge ih => exact hFinished _ (hWalk.closed _ ih _ hEdge)
  · intro l b m hSplit hb
    obtain ⟨v, hEdge, hWhere⟩ := hWalk.parent l b m hSplit hb
    rw [hBlocks] at hWhere
    exact ⟨v, hEdge, hWhere.resolve_left not_mem_nil⟩
  · intro hClear
    cases hEarly hClear with
    | before l i hWork | again l i j hWork | back i m hWork =>
      exact absurd (hEmpty.symm.trans hWork) (by simp)
    | done m _ hPost hOther => exact ⟨m, hPost, hOther⟩
  · intro hClear
    cases hLate hClear with
    | before l i hWork | again p l j m hWork => exact absurd (hEmpty.symm.trans hWork) (by simp)
    | back p l m hPost hOther hp hEdge hWhere =>
      rw [hBlocks] at hWhere
      have hl := hWhere.resolve_left not_mem_nil
      have hpm : p ∉ m := by
        intro hMem
        rw [hPost, filter_append, nodup_append] at hNodup
        refine hNodup.2.2 p (mem_filter.mpr ⟨hl, by simpa using hp⟩) p ?_ rfl
        exact mem_filter.mpr ⟨mem_cons_of_mem 0 hMem, by simpa using hp⟩
      refine ⟨p, hp, hEdge, by rw [hPost]; exact mem_append_left _ hl, ?_⟩
      rw [hPost]
      exact rpoPos_lt hl (by simp [hp, hpm]) hOther

end B2Compiler.Passes.Builder
