import Mathlib.Data.List.Sort

/-!
# Binary search in an ascending list

The search keeps a window of the list and halves it: everything in front of the window is
below the key, everything behind it is not.
-/

namespace B2Compiler.Lib.BinarySearch

open List

variable {α : Type*} [LinearOrder α]

/-- The search in the `len` places from `first` on; the window shrinks at every step, so
`len` steps are enough. -/
def lowerBoundFrom (xs : List α) (key : α) : Nat → Nat → Nat → Nat
  | 0, first, _ => first
  | steps + 1, first, len =>
    if len = 0 then first
    else
      let half := len / 2
      match xs[first + half]? with
      | none => first
      | some x =>
        if x < key then lowerBoundFrom xs key steps (first + half + 1) (len - half - 1)
        else lowerBoundFrom xs key steps first half

/-- The first place whose element is not below the key. -/
def lowerBound (xs : List α) (key : α) : Nat := lowerBoundFrom xs key xs.length 0 xs.length

def binarySearch (xs : List α) (key : α) : Bool :=
  match xs[lowerBound xs key]? with
  | none => false
  | some x => !decide (key < x)

def Parts (xs : List α) (key : α) (i : Nat) : Prop :=
  (∀ j x, j < i → xs[j]? = some x → x < key) ∧ ∀ j x, i ≤ j → xs[j]? = some x → key ≤ x

variable {xs : List α} (hSorted : xs.Pairwise (· ≤ ·))
include hSorted

theorem le_of_sorted {i j : Nat} {x y : α}
    (hx : xs[i]? = some x) (hy : xs[j]? = some y) (hij : i ≤ j) : x ≤ y := by
  obtain ⟨hi, rfl⟩ := List.getElem?_eq_some_iff.mp hx
  obtain ⟨hj, rfl⟩ := List.getElem?_eq_some_iff.mp hy
  rcases Nat.eq_or_lt_of_le hij with hEq | hLt
  · subst hEq
    exact le_refl _
  · exact pairwise_iff_getElem.mp hSorted i j hi hj hLt

theorem lowerBoundFrom_parts (key : α)
    {steps first len : Nat} (hSteps : len ≤ steps) (hEnd : first + len ≤ xs.length)
    (hFront : ∀ j x, j < first → xs[j]? = some x → x < key)
    (hBack : ∀ j x, first + len ≤ j → xs[j]? = some x → key ≤ x) :
    Parts xs key (lowerBoundFrom xs key steps first len) := by
  induction steps generalizing first len with
  | zero =>
    have hLen : len = 0 := by omega
    subst hLen
    exact ⟨hFront, hBack⟩
  | succ steps ih =>
    rw [lowerBoundFrom]
    split_ifs with hLen
    · subst hLen
      exact ⟨hFront, hBack⟩
    have hMid : first + len / 2 < xs.length := by omega
    have hRead := getElem?_eq_getElem hMid
    dsimp only
    rw [hRead]
    dsimp only
    split_ifs with hBelow
    · -- the middle and all in front of it are below the key
      apply ih (by omega) (by omega)
      · intro j x hj hx
        exact lt_of_le_of_lt (le_of_sorted hSorted hx hRead (by omega)) hBelow
      · intro j x hj hx
        exact hBack j x (by omega) hx
    · apply ih (by omega) (by omega) hFront
      intro j x hj hx
      exact le_trans (not_lt.mp hBelow) (le_of_sorted hSorted hRead hx hj)

theorem lowerBound_parts (key : α) : Parts xs key (lowerBound xs key) := by
  apply lowerBoundFrom_parts hSorted key (Nat.le_refl _)
  · omega
  · intro j x hj
    exact absurd hj (Nat.not_lt_zero j)
  · intro j x hj hx
    have hLt := (List.getElem?_eq_some_iff.mp hx).1
    omega

/-- In an ascending list the search finds exactly the elements. -/
theorem binarySearch_iff (key : α) : binarySearch xs key = true ↔ key ∈ xs := by
  obtain ⟨hFront, hBack⟩ := lowerBound_parts hSorted key
  unfold binarySearch
  rcases hRead : xs[lowerBound xs key]? with _ | x
  · constructor
    · intro hFalse
      cases hFalse
    · intro hMem
      obtain ⟨j, hj⟩ := List.getElem?_of_mem hMem
      have hLt := (List.getElem?_eq_some_iff.mp hj).1
      have hOut := getElem?_eq_none_iff.mp hRead
      exact absurd (hFront j key (by omega) hj) (lt_irrefl key)
  · have hLe := hBack _ x (Nat.le_refl _) hRead
    rw [Bool.not_eq_true', decide_eq_false_iff_not, not_lt]
    constructor
    · intro hGe
      rw [le_antisymm hLe hGe]
      exact mem_of_getElem? hRead
    · intro hMem
      obtain ⟨j, hj⟩ := getElem?_of_mem hMem
      by_cases hBefore : j < lowerBound xs key
      · exact absurd (hFront j key hBefore hj) (lt_irrefl key)
      · exact le_of_sorted hSorted hRead hj (Nat.le_of_not_lt hBefore)

end B2Compiler.Lib.BinarySearch
