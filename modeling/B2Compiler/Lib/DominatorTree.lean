import B2Compiler.Lib.Dominance
import Mathlib.Logic.Relation

/-!
# Trees of candidate dominators

A dominator computation keeps a candidate parent for each node it has come to.  The
candidates only have to be supported: apart from the parent no single node stands in the
way from the parent to its child.  That makes every dominator of a node one of its
ancestors (`Forest.above_of_dominates`), and it is kept when a node gets the deepest
common ancestor of its known predecessors as its parent (`Forest.update`).  When no node
would get another parent, the ancestors of a node are its dominators.
-/

namespace B2Compiler.Lib

open Relation Function

variable {α κ : Type}

section Around

variable (edge : α → κ → α → Prop)

/-- A step that does not come to `a`. -/
def Around (a x y : α) : Prop := (∃ k, edge x k y) ∧ y ≠ a

/-- Around every other node there is a way from `z` to `c`. -/
def Supports (z c : α) : Prop := ∀ a, a ≠ c → a ≠ z → ReflTransGen (Around edge a) z c

end Around

variable {edge : α → κ → α → Prop} {entry : α × κ}

theorem not_dominates_of_around {a b : α} (hEntry : a ≠ entry.1)
    (h : ReflTransGen (Around edge a) entry.1 b) : ¬Dominates edge entry a b := by
  have hPath : ∃ k before, Path edge entry ((b, k) :: before) ∧ ∀ i, (a, i) ∉ (b, k) :: before := by
    induction h with
    | refl =>
      refine ⟨entry.2, [], .entry, ?_⟩
      intro i hi
      rw [List.mem_singleton] at hi
      exact hEntry (congrArg Prod.fst hi)
    | @tail b c _ hStep ih =>
      obtain ⟨k, before, hPath, hAway⟩ := ih
      obtain ⟨⟨k', hEdge⟩, hne⟩ := hStep
      refine ⟨k', (b, k) :: before, .step hEdge hPath, ?_⟩
      intro i hi
      rcases List.mem_cons.mp hi with hEq | hRest
      · exact hne (congrArg Prod.fst hEq).symm
      · exact hAway i hRest
  obtain ⟨k, before, hPath, hAway⟩ := hPath
  intro hDom
  obtain ⟨i, hi⟩ := hDom k before hPath
  exact hAway i hi

/-- `a` is `b` or one of its ancestors. -/
def Above (idom : α → Option α) (a b : α) : Prop :=
  ReflTransGen (fun x y => idom x = some y) b a

variable {idom : α → Option α} {pos : α → Nat}

theorem above_parent {b d : α} (h : idom b = some d) : Above idom d b :=
  .single h

/-- An ancestor other than the node itself is one of the parent. -/
theorem Above.parent {a b d : α} (h : Above idom a b) (hParent : idom b = some d)
    (hne : a ≠ b) : Above idom a d := by
  rcases ReflTransGen.cases_head h with hEq | ⟨d', hStep, hRest⟩
  · exact absurd hEq.symm hne
  · rw [hParent] at hStep
    cases hStep
    exact hRest

theorem Above.trans {a b c : α} (hab : Above idom a b) (hbc : Above idom b c) : Above idom a c :=
  ReflTransGen.trans hbc hab

/-! ## Supported candidates -/

/-- The candidates form a tree with the entry as its root: parents are known, stand
earlier than their children, and support them. -/
structure Forest (edge : α → κ → α → Prop) (root : α) (pos : α → Nat)
    (idom : α → Option α) : Prop where
  atRoot : idom root = some root
  known : ∀ b d, idom b = some d → ∃ e, idom d = some e
  up : ∀ b d, b ≠ root → idom b = some d → pos d < pos b
  supports : ∀ b d, b ≠ root → idom b = some d → Supports edge d b

namespace Forest

variable {root : α}

theorem initial [DecidableEq α] (edge : α → κ → α → Prop) (root : α) (pos : α → Nat) :
    Forest edge root pos (update (fun _ => none) root (some root)) := by
  have hOnly : ∀ b d, update (fun _ => none) root (some root) b = some d → b = root := by
    intro b d h
    by_contra hne
    rw [update_of_ne hne] at h
    cases h
  constructor
  case atRoot =>
    exact update_self ..
  case known =>
    intro b d h
    have hb := hOnly b d h
    subst hb
    rw [update_self] at h
    cases h
    exact ⟨b, update_self ..⟩
  case up =>
    exact fun b d hne h => absurd (hOnly b d h) hne
  case supports =>
    exact fun b d hne h => absurd (hOnly b d h) hne

variable (h : Forest edge root pos idom)
include h

theorem above_root {a : α} (hAbove : Above idom a root) : a = root := by
  induction hAbove with
  | refl => rfl
  | tail _ hStep ih =>
    subst ih
    rw [h.atRoot] at hStep
    exact (Option.some.inj hStep).symm

theorem pos_le {a b : α} (hAbove : Above idom a b) : pos a ≤ pos b := by
  induction hAbove with
  | refl => exact Nat.le_refl _
  | @tail x y _ hStep ih =>
    by_cases hx : x = root
    · subst hx
      rw [h.atRoot] at hStep
      cases hStep
      exact ih
    · have := h.up x y hx hStep
      omega

theorem pos_lt {a b : α} (hAbove : Above idom a b) (hne : a ≠ b) : pos a < pos b := by
  rcases ReflTransGen.cases_head hAbove with hEq | ⟨d, hStep, hRest⟩
  · exact absurd hEq.symm hne
  have hb : b ≠ root := by
    intro hEq
    subst hEq
    exact hne (h.above_root hAbove)
  have hLe := h.pos_le hRest
  have hLt := h.up b d hb hStep
  omega

theorem root_above {b d : α} (hKnown : idom b = some d) : Above idom root b := by
  induction hPos : pos b using Nat.strongRecOn generalizing b d with
  | _ k ih =>
    by_cases hb : b = root
    · subst hb
      exact .refl
    · obtain ⟨e, he⟩ := h.known b d hKnown
      have hLt : pos d < k := hPos ▸ h.up b d hb hKnown
      exact (ih (pos d) hLt he rfl).trans (above_parent hKnown)

theorem root_le {b d : α} (hKnown : idom b = some d) : pos root ≤ pos b :=
  h.pos_le (h.root_above hKnown)

theorem known_above {a b d : α} (hKnown : idom b = some d) (hAbove : Above idom a b) :
    ∃ e, idom a = some e := by
  induction hAbove with
  | refl => exact ⟨d, hKnown⟩
  | tail _ hStep _ => exact h.known _ _ hStep

/-- Down the tree there is a way around every node that is not on it. -/
theorem around {z p a : α} (hAbove : Above idom z p)
    (hAway : ∀ c, Above idom c p → Above idom z c → c ≠ a) :
    ReflTransGen (Around edge a) z p := by
  induction hAbove using ReflTransGen.head_induction_on with
  | refl => exact .refl
  | @head p d hStep hRest ih =>
    have hBefore := ih fun c hc hz => hAway c (hc.trans (above_parent hStep)) hz
    by_cases hp : p = root
    · subst hp
      rw [h.atRoot] at hStep
      cases hStep
      exact hBefore
    · have hd := hAway d (above_parent hStep) hRest
      have hp' := hAway p .refl (Above.trans hRest (above_parent hStep))
      exact hBefore.trans (h.supports p d hp hStep a hp'.symm hd.symm)

theorem above_of_dominates {entry : α × κ} (hRoot : entry.1 = root) {a b d : α}
    (hKnown : idom b = some d) (hDom : Dominates edge entry a b) : Above idom a b := by
  by_contra hNot
  have hne : a ≠ entry.1 := by
    intro hEq
    rw [hEq, hRoot] at hNot
    exact hNot (h.root_above hKnown)
  refine not_dominates_of_around hne ?_ hDom
  rw [hRoot]
  refine h.around (h.root_above hKnown) ?_
  intro c hc _ hEq
  exact hNot (hEq ▸ hc)

/-- The deepest common ancestor of known predecessors supports a node. -/
theorem supports_meet {b z : α} {ps : List α} (hNonempty : ps ≠ [])
    (hEdge : ∀ p ∈ ps, ∃ k, edge p k b) (hAbove : ∀ p ∈ ps, Above idom z p)
    (hDeepest : ∀ w, (∀ p ∈ ps, Above idom w p) → Above idom w z) : Supports edge z b := by
  intro a hab haz
  have hWay : ∃ p ∈ ps, ReflTransGen (Around edge a) z p := by
    by_cases hAll : ∀ p ∈ ps, Above idom a p
    · -- a common ancestor stands above `z`, and the way goes below `z`
      obtain ⟨p, hp⟩ := List.exists_mem_of_ne_nil ps hNonempty
      have hLt := h.pos_lt (hDeepest a hAll) haz
      refine ⟨p, hp, h.around (hAbove p hp) ?_⟩
      intro c _ hz hEq
      have hLe := h.pos_le hz
      rw [hEq] at hLe
      omega
    · push Not at hAll
      obtain ⟨p, hp, hNot⟩ := hAll
      refine ⟨p, hp, h.around (hAbove p hp) ?_⟩
      intro c hc _ hEq
      exact hNot (hEq ▸ hc)
  obtain ⟨p, hp, hSteps⟩ := hWay
  exact hSteps.tail ⟨hEdge p hp, hab.symm⟩

/-- A supported candidate that stands earlier may be the new parent. -/
theorem update [DecidableEq α] {b z e : α} (hb : b ≠ root) (hKnown : idom z = some e)
    (hPos : pos z < pos b) (hSupports : Supports edge z b) :
    Forest edge root pos (update idom b (some z)) := by
  have hz : z ≠ b := by
    intro hEq
    rw [hEq] at hPos
    omega
  constructor
  case atRoot =>
    rw [update_of_ne hb.symm]
    exact h.atRoot
  case known =>
    intro c d hc
    by_cases hd : d = b
    · exact ⟨z, by rw [hd, update_self]⟩
    rw [update_of_ne hd]
    by_cases hcb : c = b
    · rw [hcb, update_self] at hc
      cases hc
      exact ⟨e, hKnown⟩
    · rw [update_of_ne hcb] at hc
      exact h.known c d hc
  case up =>
    intro c d hRoot hc
    by_cases hcb : c = b
    · rw [hcb, update_self] at hc
      cases hc
      rw [hcb]
      exact hPos
    · rw [update_of_ne hcb] at hc
      exact h.up c d hRoot hc
  case supports =>
    intro c d hRoot hc
    by_cases hcb : c = b
    · rw [hcb, update_self] at hc
      cases hc
      rw [hcb]
      exact hSupports
    · rw [update_of_ne hcb] at hc
      exact h.supports c d hRoot hc

end Forest

/-- Every edge out of a known node leads to a known node, and the parent of a node is above
all its known predecessors. -/
structure Stable (edge : α → κ → α → Prop) (root : α) (idom : α → Option α) : Prop where
  closed : ∀ p k b d, edge p k b → idom p = some d → ∃ e, idom b = some e
  below : ∀ p k b d e, b ≠ root → edge p k b → idom b = some d → idom p = some e → Above idom d p

variable {root : α}

variable (hStable : Stable edge root idom) (h : Forest edge root pos idom)
  (hRoot : entry.1 = root)
include hStable h hRoot

/-- The nodes of a path from the root are known, and the path visits all the ancestors
of its end. -/
theorem Stable.visits {b : α} {k : κ} {before : List (α × κ)}
    (hPath : Path edge entry ((b, k) :: before)) :
    (∃ d, idom b = some d) ∧ ∀ a, Above idom a b → ∃ i, (a, i) ∈ (b, k) :: before := by
  induction before generalizing b k with
  | nil =>
    cases hPath
    subst hRoot
    refine ⟨⟨_, h.atRoot⟩, ?_⟩
    intro a ha
    exact ⟨k, by rw [h.above_root ha]; exact List.mem_singleton_self _⟩
  | cons visit rest ih =>
    cases hPath with
    | @step p _ i _ _ hEdge hBefore =>
      obtain ⟨⟨e, hp⟩, hVisits⟩ := ih hBefore
      obtain ⟨d, hb⟩ := hStable.closed p k b e hEdge hp
      refine ⟨⟨d, hb⟩, ?_⟩
      intro a ha
      by_cases hab : a = b
      · exact ⟨k, by rw [hab]; exact List.mem_cons_self⟩
      by_cases hEnd : b = root
      · subst hEnd
        exact absurd (h.above_root ha) hab
      · have hAbove := hStable.below p k b d e hEnd hEdge hb hp
        obtain ⟨j, hj⟩ := hVisits a ((ha.parent hb hab).trans hAbove)
        exact ⟨j, List.mem_cons_of_mem _ hj⟩

theorem Stable.dominates_iff {a b d : α} (hKnown : idom b = some d) :
    Dominates edge entry a b ↔ Above idom a b := by
  constructor
  · exact h.above_of_dominates hRoot hKnown
  · intro ha k before hPath
    exact (hStable.visits h hRoot hPath).2 a ha

end B2Compiler.Lib
