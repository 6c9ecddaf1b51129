import Mathlib.Data.Set.Finite.Lattice
import Mathlib.Order.Interval.Finset.Nat

/-!
# Closed walks

Cycles of a relation and the marked nodes on them.  A cycle over a linear order has a
step that does not go up; so to see that every cycle has a mark it is enough to look at
those steps.
-/

namespace B2Compiler.Lib.ClosedWalk

open Relation List

variable {α : Type*} {r : α → α → Prop} {P : α → Prop}

/-- The nodes follow each other, and the first follows the last. -/
def IsCycle (r : α → α → Prop) : List α → Prop
  | [] => False
  | a :: ps => List.IsChain r (a :: (ps ++ [a]))

/-- A cycle may be started at any of its nodes. -/
theorem IsCycle.rotate {a : α} {l m : List α} (h : IsCycle r (l ++ a :: m)) :
    IsCycle r (a :: (m ++ l)) := by
  cases l with
  | nil =>
    rw [append_nil]
    exact h
  | cons b l =>
    have hChain : List.IsChain r ((b :: l) ++ a :: (m ++ [b])) := by
      have hWalk : List.IsChain r (b :: ((l ++ a :: m) ++ [b])) := h
      rw [append_assoc] at hWalk
      exact hWalk
    obtain ⟨hFirst, hSecond⟩ := isChain_split.mp hChain
    have hAll : List.IsChain r ((a :: m) ++ b :: (l ++ [a])) :=
      isChain_split.mpr ⟨hSecond, hFirst⟩
    show List.IsChain r (a :: ((m ++ b :: l) ++ [a]))
    rw [append_assoc]
    exact hAll

/-- A step from a node without a mark. -/
def Unmarked (r : α → α → Prop) (P : α → Prop) (a b : α) : Prop := ¬P a ∧ r a b

theorem exists_walk {a b : α} (h : TransGen (Unmarked r P) a b) :
    ∃ ps, List.IsChain r (a :: (ps ++ [b])) ∧ ∀ p ∈ a :: ps, ¬P p := by
  induction h using TransGen.head_induction_on with
  | @single a hab =>
    refine ⟨[], ?_, fun p hp => ?_⟩
    · simpa using hab.2
    · rw [mem_singleton.mp hp]
      exact hab.1
  | @head a c hac _ ih =>
    obtain ⟨ps, hchain, hmarks⟩ := ih
    refine ⟨c :: ps, List.IsChain.cons_cons hac.2 hchain, fun p hp => ?_⟩
    rcases mem_cons.mp hp with rfl | hp
    · exact hac.1
    · exact hmarks p hp

theorem transGen_of_walk {a b : α} {ps : List α} (h : List.IsChain r (a :: (ps ++ [b])))
    (hmarks : ∀ p ∈ a :: ps, ¬P p) : TransGen (Unmarked r P) a b := by
  induction ps generalizing a with
  | nil =>
    have hab : r a b := by simpa using h
    exact .single ⟨hmarks a mem_cons_self, hab⟩
  | cons c ps ih =>
    rw [cons_append, isChain_cons_cons] at h
    exact .head ⟨hmarks a mem_cons_self, h.1⟩ (ih h.2 fun p hp => hmarks p (mem_cons_of_mem a hp))

/-- Every cycle has a mark exactly when no node leads back to itself past unmarked
nodes. -/
theorem marked_iff : (∀ ps, IsCycle r ps → ∃ p ∈ ps, P p) ↔ ∀ a, ¬TransGen (Unmarked r P) a a := by
  constructor
  · intro h a hcycle
    obtain ⟨ps, hchain, hmarks⟩ := exists_walk hcycle
    obtain ⟨p, hp, hP⟩ := h (a :: ps) hchain
    exact hmarks p hp hP
  · intro h ps hcycle
    cases ps with
    | nil => exact hcycle.elim
    | cons a ps =>
      by_contra hnone
      have hmarks : ∀ p ∈ a :: ps, ¬P p := fun p hp hP => hnone ⟨p, hp, hP⟩
      exact h a (transGen_of_walk hcycle hmarks)

/-- A walk goes up all the way, or has a step that does not. -/
theorem retreat_of_walk [LinearOrder α] {a b : α} (h : TransGen r a b) :
    a < b ∨ ∃ x y, r x y ∧ y ≤ x ∧ ReflTransGen r a x ∧ ReflTransGen r y b := by
  induction h with
  | @single b hab =>
    rcases lt_or_ge a b with hlt | hle
    · exact Or.inl hlt
    · exact Or.inr ⟨a, b, hab, hle, .refl, .refl⟩
  | @tail b c hab hbc ih =>
    rcases ih with hlt | ⟨x, y, hxy, hle, hax, hyb⟩
    · rcases lt_or_ge b c with hlt' | hle
      · exact Or.inl (hlt.trans hlt')
      · exact Or.inr ⟨b, c, hbc, hle, hab.to_reflTransGen, .refl⟩
    · exact Or.inr ⟨x, y, hxy, hle, hax, hyb.tail hbc⟩

/-- A cycle has a step that does not go up, and leads back from its end to its start. -/
theorem retreat_of_cycle [LinearOrder α] {a : α} (h : TransGen r a a) :
    ∃ x y, r x y ∧ y ≤ x ∧ ReflTransGen r y x := by
  rcases retreat_of_walk h with hlt | ⟨x, y, hxy, hle, hax, hya⟩
  · exact absurd hlt (lt_irrefl a)
  · exact ⟨x, y, hxy, hle, hya.trans hax⟩

theorem transGen_of_run {f : Nat → α} (hf : ∀ i, r (f i) (f (i + 1))) {i j : Nat} (h : i < j) :
    TransGen r (f i) (f j) := by
  induction j with
  | zero => exact absurd h (Nat.not_lt_zero i)
  | succ j ih =>
    rcases Nat.lt_or_eq_of_le (Nat.le_of_lt_succ h) with hlt | rfl
    · exact (ih hlt).tail (hf j)
    · exact .single (hf i)

/-- A walk without end over finitely many nodes meets marks for ever, where every cycle
has one. -/
theorem marked_again {f : Nat → α} {S : Set α} (hS : S.Finite) (hf : ∀ i, r (f i) (f (i + 1)))
    (hin : ∀ i, f i ∈ S) (h : ∀ a, ¬TransGen (Unmarked r P) a a) (n : Nat) :
    ∃ k, n ≤ k ∧ P (f k) := by
  by_contra hnone
  push Not at hnone
  have hstep : ∀ i, Unmarked r P (f (n + i)) (f (n + (i + 1))) :=
    fun i => ⟨hnone (n + i) (Nat.le_add_right n i), hf (n + i)⟩
  obtain ⟨i, -, j, -, hij, heq⟩ := Set.infinite_univ.exists_lt_map_eq_of_mapsTo
    (f := fun i => f (n + i)) (fun i _ => hin (n + i)) hS
  have hwalk := transGen_of_run (f := fun i => f (n + i)) hstep hij
  rw [← heq] at hwalk
  exact h _ hwalk

end B2Compiler.Lib.ClosedWalk
