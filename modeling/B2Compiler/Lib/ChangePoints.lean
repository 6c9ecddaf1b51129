import Mathlib.Data.List.Basic

/-!
# Change points of a trace

A trace gives a value at positions in ascending order; in between the value stays.  Its change
points are the entries that differ from the value before them.  Between two positions there is a
change point exactly when some entry there differs from the value the trace has at the first.
-/

namespace B2Compiler.Lib

open List

namespace ChangePoints

variable {α : Type*} [DecidableEq α]

/-- The entries of a trace that differ from the value before them; `r` is the value in front. -/
def changes : α → List (Nat × α) → List (Nat × α)
  | _, [] => []
  | r, (p, t) :: es => if r = t then changes r es else (p, t) :: changes t es

/-- The value behind a trace. -/
def final : α → List (Nat × α) → α
  | r, [] => r
  | _, (_, t) :: es => final t es

@[simp] theorem changes_nil (r : α) : changes r [] = [] := rfl

theorem changes_cons (r : α) (p : Nat) (t : α) (es : List (Nat × α)) :
    changes r ((p, t) :: es) = if r = t then changes r es else (p, t) :: changes t es := rfl

omit [DecidableEq α] in
theorem final_cons (r : α) (p : Nat) (t : α) (es : List (Nat × α)) :
    final r ((p, t) :: es) = final t es := rfl

/-- The value at a position: that of the last entry up to it. -/
def valueAt (r : α) (es : List (Nat × α)) (q : Nat) : α :=
  final r (es.filter fun e => e.1 ≤ q)

/-- Positions do not go down. -/
def Ascending (es : List (Nat × α)) : Prop := es.Pairwise fun e f => e.1 ≤ f.1

omit [DecidableEq α] in
theorem final_append (r : α) (es fs : List (Nat × α)) :
    final r (es ++ fs) = final (final r es) fs := by
  induction es generalizing r with
  | nil => rfl
  | cons e es ih => exact ih e.2

theorem changes_append (r : α) (es fs : List (Nat × α)) :
    changes r (es ++ fs) = changes r es ++ changes (final r es) fs := by
  induction es generalizing r with
  | nil => rfl
  | cons e es ih =>
    obtain ⟨p, t⟩ := e
    rw [cons_append, changes_cons, changes_cons, final_cons]
    by_cases ht : r = t
    · rw [if_pos ht, if_pos ht, ih r, ht]
    · rw [if_neg ht, if_neg ht, ih t, cons_append]

theorem mem_of_mem_changes {r : α} {es : List (Nat × α)} {c : Nat × α}
    (h : c ∈ changes r es) : c ∈ es := by
  induction es generalizing r with
  | nil => cases h
  | cons e es ih =>
    obtain ⟨p, t⟩ := e
    rw [changes_cons] at h
    split at h
    · exact mem_cons_of_mem _ (ih h)
    · rcases mem_cons.mp h with rfl | h
      · exact mem_cons_self ..
      · exact mem_cons_of_mem _ (ih h)

theorem ascending_changes {r : α} {es : List (Nat × α)} (h : Ascending es) :
    Ascending (changes r es) := by
  induction es generalizing r with
  | nil => exact List.Pairwise.nil
  | cons e es ih =>
    obtain ⟨p, t⟩ := e
    have hcons := pairwise_cons.mp h
    rw [changes_cons]
    split
    · exact ih hcons.2
    · exact pairwise_cons.mpr ⟨fun c hc => hcons.1 c (mem_of_mem_changes hc), ih hcons.2⟩

/-- Before a bound, a change point exists when an entry differs from the value in front. -/
theorem exists_change_lt {r : α} {es : List (Nat × α)} (h : Ascending es) (stop : Nat) :
    (∃ c ∈ changes r es, c.1 < stop) ↔ ∃ e ∈ es, e.1 < stop ∧ e.2 ≠ r := by
  induction es with
  | nil => simp
  | cons e es ih =>
    obtain ⟨p, t⟩ := e
    have hcons := pairwise_cons.mp h
    rw [changes_cons]
    by_cases ht : r = t
    · rw [if_pos ht, ih hcons.2]
      constructor
      · rintro ⟨e, he, hlt, hne⟩
        exact ⟨e, mem_cons_of_mem _ he, hlt, hne⟩
      · rintro ⟨e, he, hlt, hne⟩
        rcases mem_cons.mp he with rfl | he
        · exact absurd ht.symm hne
        · exact ⟨e, he, hlt, hne⟩
    · rw [if_neg ht]
      constructor
      · rintro ⟨c, hc, hlt⟩
        refine ⟨(p, t), mem_cons_self .., ?_, Ne.symm ht⟩
        rcases mem_cons.mp hc with rfl | hc
        · exact hlt
        · exact Nat.lt_of_le_of_lt (hcons.1 c (mem_of_mem_changes hc)) hlt
      · rintro ⟨e, he, hlt, _⟩
        refine ⟨(p, t), mem_cons_self .., ?_⟩
        rcases mem_cons.mp he with rfl | he
        · exact hlt
        · exact Nat.lt_of_le_of_lt (hcons.1 e he) hlt

omit [DecidableEq α] in
theorem valueAt_of_late {r : α} {es : List (Nat × α)} {q : Nat} (h : ∀ e ∈ es, q < e.1) :
    valueAt r es q = r := by
  have hnil : es.filter (fun e => e.1 ≤ q) = [] := by
    rw [filter_eq_nil_iff]
    intro e he
    have hlt := h e he
    simp only [decide_eq_true_eq]
    omega
  unfold valueAt
  rw [hnil]
  rfl

/-- Strictly between two positions there is a change point exactly when an entry there differs
from the value at the first position. -/
theorem exists_change_iff {r : α} {es : List (Nat × α)} (h : Ascending es) (start stop : Nat) :
    (∃ c ∈ changes r es, start < c.1 ∧ c.1 < stop) ↔
      ∃ e ∈ es, start < e.1 ∧ e.1 < stop ∧ e.2 ≠ valueAt r es start := by
  induction es generalizing r with
  | nil => simp
  | cons e es ih =>
    obtain ⟨p, t⟩ := e
    have hcons := pairwise_cons.mp h
    by_cases hp : p ≤ start
    · -- the entry is not in between, and the rest goes on from its value
      have hvalue : valueAt r ((p, t) :: es) start = valueAt t es start := by
        unfold valueAt
        rw [filter_cons, if_pos (by simpa using hp), final_cons]
      have hrest := ih (r := t) hcons.2
      rw [hvalue]
      constructor
      · rintro ⟨c, hc, hlow, hhigh⟩
        have hmem : c ∈ changes t es := by
          rw [changes_cons] at hc
          split at hc
          · rename_i ht
            rwa [← ht]
          · rcases mem_cons.mp hc with rfl | hc
            · dsimp only at hlow
              omega
            · exact hc
        obtain ⟨e, he, hrange⟩ := hrest.mp ⟨c, hmem, hlow, hhigh⟩
        exact ⟨e, mem_cons_of_mem _ he, hrange⟩
      · rintro ⟨e, he, hlow, hhigh, hne⟩
        have hmem : e ∈ es := by
          rcases mem_cons.mp he with rfl | he
          · dsimp only at hlow
            omega
          · exact he
        obtain ⟨c, hc, hrange⟩ := hrest.mpr ⟨e, hmem, hlow, hhigh, hne⟩
        refine ⟨c, ?_, hrange⟩
        rw [changes_cons]
        split
        · rename_i ht
          rwa [ht]
        · exact mem_cons_of_mem _ hc
    · -- every entry is behind the first position
      have hlate : ∀ e ∈ (p, t) :: es, start < e.1 := by
        intro e he
        rcases mem_cons.mp he with rfl | he
        · dsimp only
          omega
        · have hle : p ≤ e.1 := hcons.1 e he
          omega
      rw [valueAt_of_late hlate]
      constructor
      · rintro ⟨c, hc, _, hhigh⟩
        obtain ⟨e, he, hlt, hne⟩ := (exists_change_lt h stop).mp ⟨c, hc, hhigh⟩
        exact ⟨e, he, hlate e he, hlt, hne⟩
      · rintro ⟨e, he, _, hhigh, hne⟩
        obtain ⟨c, hc, hlt⟩ := (exists_change_lt h stop).mpr ⟨e, he, hhigh, hne⟩
        exact ⟨c, hc, hlate c (mem_of_mem_changes hc), hlt⟩

omit [DecidableEq α] in
theorem final_of_const {r : α} {es : List (Nat × α)} (h : ∀ e ∈ es, e.2 = r) : final r es = r := by
  induction es with
  | nil => rfl
  | cons e es ih =>
    rw [final_cons, h e (mem_cons_self ..)]
    exact ih (fun f hf => h f (mem_cons_of_mem _ hf))

omit [DecidableEq α] in
/-- While no entry differs from the value at a position, that value stays. -/
theorem valueAt_of_const {r : α} {es : List (Nat × α)} (h : Ascending es) {start q : Nat}
    (hq : start ≤ q) (hconst : ∀ e ∈ es, start < e.1 → e.1 ≤ q → e.2 = valueAt r es start) :
    valueAt r es q = valueAt r es start := by
  induction es generalizing r with
  | nil => rfl
  | cons e es ih =>
    obtain ⟨p, t⟩ := e
    have hcons := pairwise_cons.mp h
    by_cases hp : p ≤ start
    · have hvalue : ∀ x, p ≤ x → valueAt r ((p, t) :: es) x = valueAt t es x := by
        intro x hx
        unfold valueAt
        rw [filter_cons, if_pos (by simpa using hx), final_cons]
      rw [hvalue start hp] at hconst ⊢
      rw [hvalue q (Nat.le_trans hp hq)]
      exact ih hcons.2 (fun f hf => hconst f (mem_cons_of_mem _ hf))
    · have hlate : ∀ e ∈ (p, t) :: es, start < e.1 := by
        intro e he
        rcases mem_cons.mp he with rfl | he
        · dsimp only
          omega
        · have hle : p ≤ e.1 := hcons.1 e he
          omega
      rw [valueAt_of_late hlate] at hconst ⊢
      apply final_of_const
      intro f hf
      rw [mem_filter, decide_eq_true_eq] at hf
      exact hconst f hf.1 (hlate f hf.1) hf.2

omit [DecidableEq α] in
/-- The first entry behind a position is before a bound when some entry lies in between. -/
theorem dropWhile_lt_iff {l : List (Nat × α)} (h : Ascending l) (start stop : Nat) :
    (∃ c rest, l.dropWhile (fun e => e.1 ≤ start) = c :: rest ∧ c.1 < stop) ↔
      ∃ c ∈ l, start < c.1 ∧ c.1 < stop := by
  induction l with
  | nil => simp
  | cons e es ih =>
    have hcons := pairwise_cons.mp h
    rw [dropWhile_cons]
    by_cases hp : e.1 ≤ start
    · rw [if_pos (by simpa using hp), ih hcons.2]
      constructor
      · rintro ⟨c, hc, hrange⟩
        exact ⟨c, mem_cons_of_mem _ hc, hrange⟩
      · rintro ⟨c, hc, hrange⟩
        rcases mem_cons.mp hc with rfl | hc
        · omega
        · exact ⟨c, hc, hrange⟩
    · rw [if_neg (by simpa using hp)]
      constructor
      · rintro ⟨c, rest, heq, hlt⟩
        cases heq
        exact ⟨e, mem_cons_self .., by omega, hlt⟩
      · rintro ⟨c, hc, _, hlt⟩
        refine ⟨e, es, rfl, ?_⟩
        rcases mem_cons.mp hc with rfl | hc
        · exact hlt
        · exact Nat.lt_of_le_of_lt (hcons.1 c hc) hlt

end ChangePoints

end B2Compiler.Lib
