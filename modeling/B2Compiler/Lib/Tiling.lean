import Mathlib.Data.List.Chain

/-!
# Tilings of an interval

A list of pieces, each with a start and an end, tiles an interval when the pieces
follow each other in order without gap or overlap.  The facts here are the ones a
layout needs: every point lies in exactly one piece, pieces are ordered, and a point
that lies strictly inside no piece is where a piece starts.
-/

namespace B2Compiler.Lib.Tiling

open List

variable {α : Type*} (start stop : α → Nat)

/-- The pieces tile `[lo, hi)`, in order.  A piece may be empty. -/
def Tiles : List α → Nat → Nat → Prop
  | [], lo, hi => lo = hi
  | a :: l, lo, hi => start a = lo ∧ lo ≤ stop a ∧ Tiles l (stop a) hi

/-- Piece number `i` contains a point. -/
def At (l : List α) (p i : Nat) : Prop :=
  ∃ a, l[i]? = some a ∧ start a ≤ p ∧ p < stop a

variable {start stop} {l : List α} {lo hi : Nat}

theorem Tiles.le (h : Tiles start stop l lo hi) : lo ≤ hi := by
  induction l generalizing lo with
  | nil => exact Nat.le_of_eq h
  | cons a l ih =>
    obtain ⟨_, hle, hrest⟩ := h
    exact Nat.le_trans hle (ih hrest)

theorem Tiles.append {l' : List α} {mid : Nat} (h : Tiles start stop l lo mid)
    (h' : Tiles start stop l' mid hi) : Tiles start stop (l ++ l') lo hi := by
  induction l generalizing lo with
  | nil =>
    have hempty : lo = mid := h
    rw [hempty]
    exact h'
  | cons a l ih =>
    obtain ⟨hstart, hle, hrest⟩ := h
    exact ⟨hstart, hle, ih hrest⟩

variable (h : Tiles start stop l lo hi)
include h

/-- Pieces with the same ends tile the same interval. -/
theorem Tiles.of_forall₂ {β : Type*} {start' stop' : β → Nat} {l' : List β}
    (hsame : List.Forall₂ (fun a b => start' b = start a ∧ stop' b = stop a) l l') :
    Tiles start' stop' l' lo hi := by
  induction hsame generalizing lo with
  | nil => exact h
  | cons hab _ ih =>
    obtain ⟨hstart, hle, hrest⟩ := h
    obtain ⟨hs, ht⟩ := hab
    exact ⟨by omega, by omega, by rw [ht]; exact ih hrest⟩

theorem Tiles.bounds {a : α} (ha : a ∈ l) : lo ≤ start a ∧ start a ≤ stop a ∧ stop a ≤ hi := by
  induction l generalizing lo with
  | nil => cases ha
  | cons b l ih =>
    obtain ⟨hstart, hle, hrest⟩ := h
    rcases mem_cons.mp ha with rfl | ha
    · exact ⟨by omega, by omega, hrest.le⟩
    · obtain ⟨h₁, h₂, h₃⟩ := ih hrest ha
      exact ⟨by omega, h₂, h₃⟩

/-- An earlier piece ends before a later one starts. -/
theorem Tiles.pairwise : l.Pairwise fun a b => stop a ≤ start b := by
  induction l generalizing lo with
  | nil => exact List.Pairwise.nil
  | cons a l ih =>
    obtain ⟨_, _, hrest⟩ := h
    refine List.Pairwise.cons (fun b hb => ?_) (ih hrest)
    exact (hrest.bounds hb).1

/-- A piece starts where the one before it ends. -/
theorem Tiles.next {i : Nat} {a b : α} (ha : l[i]? = some a)
    (hb : l[i + 1]? = some b) : start b = stop a := by
  induction l generalizing lo i with
  | nil => cases ha
  | cons c l ih =>
    obtain ⟨_, _, hrest⟩ := h
    cases i with
    | zero =>
      cases ha
      cases l with
      | nil => cases hb
      | cons d l =>
        cases hb
        exact hrest.1
    | succ i => exact ih hrest ha hb

theorem Tiles.exists_at {p : Nat} (hlo : lo ≤ p) (hhi : p < hi) : ∃ i, At start stop l p i := by
  induction l generalizing lo with
  | nil =>
    have hempty : lo = hi := h
    omega
  | cons a l ih =>
    obtain ⟨hstart, _, hrest⟩ := h
    by_cases hp : p < stop a
    · exact ⟨0, a, rfl, by omega, hp⟩
    · obtain ⟨i, hi⟩ := ih hrest (by omega)
      exact ⟨i + 1, hi⟩

theorem Tiles.at_unique {p i j : Nat} (hi : At start stop l p i)
    (hj : At start stop l p j) : i = j := by
  obtain ⟨a, ha, ha₁, ha₂⟩ := hi
  obtain ⟨b, hb, hb₁, hb₂⟩ := hj
  obtain ⟨hilt, rfl⟩ := List.getElem?_eq_some_iff.mp ha
  obtain ⟨hjlt, rfl⟩ := List.getElem?_eq_some_iff.mp hb
  have hpair := pairwise_iff_getElem.mp h.pairwise
  rcases Nat.lt_trichotomy i j with hlt | heq | hgt
  · have hle := hpair i j hilt hjlt hlt
    omega
  · exact heq
  · have hle := hpair j i hjlt hilt hgt
    omega

/-- **Exactly once.**  Every point of the interval lies in one piece and in no other. -/
theorem Tiles.existsUnique_at {p : Nat} (hlo : lo ≤ p)
    (hhi : p < hi) : ∃! i, At start stop l p i := by
  obtain ⟨i, hi⟩ := h.exists_at hlo hhi
  exact ⟨i, hi, fun j hj => h.at_unique hj hi⟩

/-- A point that no piece has strictly inside is the start of a piece. -/
theorem Tiles.exists_start {p : Nat} (hlo : lo ≤ p)
    (hhi : p < hi) (hnot : ∀ a ∈ l, ¬(start a < p ∧ p < stop a)) :
    ∃ a ∈ l, start a = p := by
  obtain ⟨i, a, ha, hle, hlt⟩ := h.exists_at hlo hhi
  have hmem := mem_of_getElem? ha
  refine ⟨a, hmem, ?_⟩
  by_contra hne
  exact hnot a hmem ⟨by omega, hlt⟩

/-- Pieces of bounded length need that many of them. -/
theorem Tiles.length_le {k : Nat}
    (hk : ∀ a ∈ l, stop a ≤ start a + k) : hi ≤ lo + k * l.length := by
  induction l generalizing lo with
  | nil =>
    have hempty : lo = hi := h
    omega
  | cons a l ih =>
    obtain ⟨hstart, _, hrest⟩ := h
    have htail := ih hrest fun b hb => hk b (mem_cons_of_mem a hb)
    have hhead := hk a mem_cons_self
    have hmul : k * (a :: l).length = k * l.length + k := by
      rw [length_cons, Nat.mul_succ]
    omega

end B2Compiler.Lib.Tiling
