import Mathlib.Data.List.Basic

/-!
# Paths from an entry and dominance

A control path is kept as the list of its visits, the latest one first; a visit names
the node and the port through which it was entered.  A node dominates another one when
every path that ends at the other one visits it.  `lastVisit` is the state a value
placed at a node was computed in: how the latest visit of the node was entered, and the
path before it.

The main result, `not_mem_since`, is about a merge `r` and a node `c` that dominates
every predecessor of the merge which is not itself dominated by the merge.  As long as
the merge dominates the end of a path, `c` is not visited again after the last visit of
the merge.
-/

namespace B2Compiler.Lib

open List

variable {α : Type} {κ : Type}

/-! ## Paths -/

section Paths

variable (edge : α → κ → α → Prop) (entry : α × κ)

/-- The paths that start at the entry, latest visit first. -/
inductive Path : List (α × κ) → Prop
  | entry : Path [entry]
  | step {a b : α} {i k : κ} {before : List (α × κ)} (hEdge : edge a k b)
      (hBefore : Path ((a, i) :: before)) : Path ((b, k) :: (a, i) :: before)

/-- Every path that ends at `b` visits `c`. -/
def Dominates (c b : α) : Prop :=
  ∀ k before, Path edge entry ((b, k) :: before) → ∃ i, (c, i) ∈ (b, k) :: before

end Paths

variable {edge : α → κ → α → Prop} {entry : α × κ}

/-- What remains of a path when its latest visits are dropped is a path. -/
theorem Path.of_append {since before : List (α × κ)} (hBefore : before ≠ [])
    (h : Path edge entry (since ++ before)) : Path edge entry before := by
  induction since with
  | nil => exact h
  | cons visit since ih =>
    apply ih
    cases hRest : since ++ before with
    | nil => exact absurd (append_eq_nil_iff.mp hRest).2 hBefore
    | cons visit' rest =>
      rw [cons_append, hRest] at h
      cases h with
      | step hEdge hPath => exact hPath

theorem Path.of_tail {visit : α × κ} {since before : List (α × κ)} (hBefore : before ≠ [])
    (h : Path edge entry (visit :: (since ++ before))) : Path edge entry before := by
  rw [← cons_append] at h
  exact h.of_append hBefore

/-- A path may come to a visited node by another way. -/
theorem Path.splice {since before before' : List (α × κ)} {c : α} {i i' : κ}
    (h : Path edge entry (since ++ (c, i) :: before))
    (h' : Path edge entry ((c, i') :: before')) :
    Path edge entry (since ++ (c, i') :: before') := by
  induction since with
  | nil => exact h'
  | cons visit since ih =>
    cases since with
    | nil =>
      cases h with
      | step hEdge _ => exact .step hEdge h'
    | cons visit' since =>
      cases h with
      | step hEdge hPath => exact .step hEdge (ih hPath)

theorem dominates_refl (b : α) : Dominates edge entry b b :=
  fun k _ _ => ⟨k, mem_cons_self⟩

/-- A node entered from one node only is dominated by whatever dominates that node. -/
theorem dominates_of_pred {a b c : α} (hEntry : b ≠ entry.1) (hPred : ∀ a' k, edge a' k b → a' = a)
    (h : Dominates edge entry c a) : Dominates edge entry c b := by
  intro k before hPath
  cases hPath with
  | entry => exact absurd rfl hEntry
  | @step a' _ i _ rest hEdge hBefore =>
    have hEq := hPred a' k hEdge
    subst hEq
    obtain ⟨j, hj⟩ := h i rest hBefore
    exact ⟨j, mem_cons_of_mem _ hj⟩

section Visits

variable [DecidableEq α]

def lastVisit (c : α) : List (α × κ) → Option (κ × List (α × κ))
  | [] => none
  | (b, k) :: before => if b = c then some (k, before) else lastVisit c before

theorem lastVisit_eq_some {c : α} {path before : List (α × κ)} {k : κ}
    (h : lastVisit c path = some (k, before)) :
    ∃ since, path = since ++ (c, k) :: before ∧ ∀ i, (c, i) ∉ since := by
  induction path with
  | nil => cases h
  | cons visit path ih =>
    obtain ⟨b, i⟩ := visit
    rw [lastVisit] at h
    by_cases hb : b = c
    · rw [if_pos hb] at h
      cases h
      exact ⟨[], by rw [hb]; rfl, fun i hi => absurd hi not_mem_nil⟩
    rw [if_neg hb] at h
    obtain ⟨since, hPath, hSince⟩ := ih h
    refine ⟨(b, i) :: since, by rw [hPath]; rfl, ?_⟩
    intro j hj
    rcases mem_cons.mp hj with hEq | hRest
    · exact hb (congrArg Prod.fst hEq).symm
    · exact hSince j hRest

/-- Visits of other nodes leave the latest visit of a node where it is. -/
theorem lastVisit_append {c : α} {since path : List (α × κ)} (h : ∀ i, (c, i) ∉ since) :
    lastVisit c (since ++ path) = lastVisit c path := by
  induction since with
  | nil => rfl
  | cons visit since ih =>
    obtain ⟨b, k⟩ := visit
    have hb : b ≠ c := by
      intro hEq
      exact h k (by rw [hEq]; exact mem_cons_self)
    rw [cons_append, lastVisit, if_neg hb]
    exact ih fun i hi => h i (mem_cons_of_mem _ hi)

end Visits

section Merge

variable {r c : α}

/-- Every predecessor of the merge is dominated by the merge or by `c`. -/
def Entered (edge : α → κ → α → Prop) (entry : α × κ) (r c : α) : Prop :=
  ∀ a k, edge a k r → Dominates edge entry r a ∨ Dominates edge entry c a

variable (h : Entered edge entry r c) (hEntry : r ≠ entry.1)
include h hEntry

/-- A path to the merge visits `c` before it comes to the merge. -/
theorem Entered.mem_before {k : κ}
    {before : List (α × κ)} (hPath : Path edge entry ((r, k) :: before)) :
    ∃ i, (c, i) ∈ before := by
  induction hLen : before.length using Nat.strongRecOn generalizing k before with
  | _ len ih =>
    cases hPath with
    | entry => exact absurd rfl hEntry
    | @step a _ i _ before hEdge hBefore =>
      rcases h a k hEdge with hMerge | hOther
      · -- the predecessor was reached through the merge, on a shorter path
        obtain ⟨j, hj⟩ := hMerge i before hBefore
        obtain ⟨since, rest, hSplit⟩ := append_of_mem hj
        rw [hSplit] at hBefore
        have hShort : rest.length < len := by
          rw [← hLen, hSplit, length_append, length_cons]
          omega
        obtain ⟨l, hl⟩ := ih rest.length hShort (hBefore.of_append (by simp)) rfl
        refine ⟨l, ?_⟩
        rw [hSplit]
        exact mem_append_right _ (mem_cons_of_mem _ hl)
      · exact hOther i before hBefore

/-- Some path leads to `c` without a visit of the merge, if any leads to the merge. -/
theorem Entered.exists_avoiding [DecidableEq α] {k : κ} {before : List (α × κ)}
    (hPath : Path edge entry ((r, k) :: before)) :
    ∃ i before', Path edge entry ((c, i) :: before') ∧ ∀ j, (r, j) ∉ (c, i) :: before' := by
  induction hLen : before.length using Nat.strongRecOn generalizing k before with
  | _ len ih =>
    by_cases hAgain : ∃ j, (r, j) ∈ before
    · obtain ⟨j, hj⟩ := hAgain
      obtain ⟨since, rest, hSplit⟩ := append_of_mem hj
      have hShort : rest.length < len := by
        rw [← hLen, hSplit, length_append, length_cons]
        omega
      refine @ih rest.length hShort j rest ?_ rfl
      rw [hSplit] at hPath
      exact hPath.of_tail (by simp)
    · -- the first visit of the merge: `c` comes before it
      obtain ⟨i, hi⟩ := h.mem_before hEntry hPath
      obtain ⟨since, rest, hSplit⟩ := append_of_mem hi
      refine ⟨i, rest, ?_, ?_⟩
      · rw [hSplit] at hPath
        exact hPath.of_tail (by simp)
      · intro j hj
        refine hAgain ⟨j, ?_⟩
        rw [hSplit]
        exact mem_append_right _ hj

theorem Entered.dominates {b : α}
    (hMerge : Dominates edge entry r b) : Dominates edge entry c b := by
  intro k before hPath
  obtain ⟨j, hj⟩ := hMerge k before hPath
  obtain ⟨since, rest, hSplit⟩ := append_of_mem hj
  rw [hSplit] at hPath ⊢
  obtain ⟨i, hi⟩ := h.mem_before hEntry (hPath.of_append (by simp))
  exact ⟨i, mem_append_right _ (mem_cons_of_mem _ hi)⟩

/-- After the last visit of a merge that dominates the end of the path, `c` is not
visited any more: from such a visit the end could be reached around the merge. -/
theorem Entered.not_mem_since [DecidableEq α] {b : α} {l : κ} {rest since before : List (α × κ)}
    {k : κ}
    (hMerge : Dominates edge entry r b) (hPath : Path edge entry ((b, l) :: rest))
    (hSplit : (b, l) :: rest = since ++ (r, k) :: before) (hLast : ∀ i, (r, i) ∉ since)
    (i : κ) : (c, i) ∉ since ++ [(r, k)] := by
  rw [hSplit] at hPath
  obtain ⟨j, around, hAround, hAvoid⟩ :=
    h.exists_avoiding hEntry (hPath.of_append (by simp))
  have hne : c ≠ r := by
    intro hEq
    exact hAvoid j (by rw [hEq]; exact mem_cons_self)
  intro hi
  rcases mem_append.mp hi with hSince | hAt
  · obtain ⟨late, early, hHere⟩ := append_of_mem hSince
    have hWay : Path edge entry (late ++ (c, i) :: (early ++ (r, k) :: before)) := by
      rw [hHere] at hPath
      simpa using hPath
    have hNew := hWay.splice hAround
    -- the spliced path still ends at `b`, and it has no visit of the merge
    obtain ⟨l', rest', hEnd⟩ : ∃ l' rest', late ++ (c, j) :: around = (b, l') :: rest' := by
      cases late with
      | nil =>
        rw [hHere] at hSplit
        injection hSplit with hHead _
        have hEq : b = c := congrArg Prod.fst hHead
        exact ⟨j, around, by rw [hEq]; rfl⟩
      | cons visit late =>
        rw [hHere] at hSplit
        injection hSplit with hHead _
        exact ⟨l, late ++ (c, j) :: around, by rw [hHead]; rfl⟩
    rw [hEnd] at hNew
    obtain ⟨m, hm⟩ := hMerge l' rest' hNew
    rw [← hEnd] at hm
    rcases mem_append.mp hm with hLate | hAway
    · refine hLast m ?_
      rw [hHere]
      exact mem_append_left _ hLate
    · exact hAvoid m hAway
  · rw [mem_singleton] at hAt
    exact hne (congrArg Prod.fst hAt)

end Merge

end B2Compiler.Lib
