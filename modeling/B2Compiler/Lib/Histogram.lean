import Mathlib.Algebra.Order.Ring.Nat
import Mathlib.Algebra.BigOperators.Group.List.Lemmas

/-!
# Histograms with few slots

A histogram counts how often each value was seen, up to a cap, and has slots for the first few
different values only.  A further value marks it as overflowed, and from then on it stays as it
is.  It therefore holds the exact tally of the longest beginning of the values seen that has no
more different values than there are slots.
-/

namespace B2Compiler.Lib

open List Nat

/-- The values in order of first occurrence, with their counts. -/
structure Histogram (α : Type*) where
  slots : List (α × Nat) := []
  overflowed : Bool := false

namespace Histogram

variable {α : Type*} [DecidableEq α]

/-- One more occurrence of `a`, up to the cap. -/
def bump (cap : Nat) (a : α) (s : α × Nat) : α × Nat :=
  if s.1 = a then (s.1, min cap (s.2 + 1)) else s

/-- Count a value, with `k` slots. -/
def observe (k cap : Nat) (h : Histogram α) (a : α) : Histogram α :=
  if h.overflowed then h
  else if a ∈ h.slots.map Prod.fst then { h with slots := h.slots.map (bump cap a) }
  else if h.slots.length < k then { h with slots := h.slots ++ [(a, 1)] }
  else { h with overflowed := true }

/-- Number of different values. -/
def distinct (xs : List α) : Nat := xs.eraseDups.length

/-- The longest beginning of a list that has, together with the values `seen` before it, at most
`k` different values. -/
def admitted (k : Nat) : List α → List α → List α
  | _, [] => []
  | seen, a :: xs => if distinct (seen ++ [a]) ≤ k then a :: admitted k (seen ++ [a]) xs else []

/-- Each value with its number of occurrences, in order of first occurrence. -/
def tally (cap : Nat) (xs : List α) : List (α × Nat) :=
  xs.eraseDups.map fun a => (a, min cap (xs.count a))

theorem eraseDups_snoc (xs : List α) (a : α) :
    (xs ++ [a]).eraseDups = if a ∈ xs then xs.eraseDups else xs.eraseDups ++ [a] := by
  rw [eraseDups_append]
  by_cases ha : a ∈ xs
  · have hgone : [a].removeAll xs = [] := by simp [removeAll, ha]
    rw [if_pos ha, hgone, eraseDups_nil, append_nil]
  · have hkept : [a].removeAll xs = [a] := by simp [removeAll, ha]
    rw [if_neg ha, hkept, eraseDups_cons, filter_nil, eraseDups_nil]

theorem distinct_snoc (xs : List α) (a : α) :
    distinct (xs ++ [a]) = if a ∈ xs then distinct xs else distinct xs + 1 := by
  unfold distinct
  rw [eraseDups_snoc]
  split
  · rfl
  · rw [length_append, length_singleton]

theorem distinct_le_append (xs ys : List α) : distinct xs ≤ distinct (xs ++ ys) := by
  unfold distinct
  rw [eraseDups_append, length_append]
  exact le_add_right _ _

theorem nodup_eraseDups (xs : List α) : xs.eraseDups.Nodup := by
  induction xs using reverseRecOn with
  | nil => exact nodup_nil
  | append_singleton xs a ih =>
    rw [eraseDups_snoc]
    split
    · exact ih
    rename_i ha
    rw [nodup_append]
    refine ⟨ih, nodup_singleton a, ?_⟩
    rintro b hb c hc rfl
    rw [mem_singleton] at hc
    exact ha (hc ▸ mem_eraseDups.mp hb)

variable {k cap : Nat}

/-- A list is admitted as a whole exactly when it has few different values. -/
theorem admitted_eq_self_iff (seen xs : List α) (hseen : distinct seen ≤ k) :
    admitted k seen xs = xs ↔ distinct (seen ++ xs) ≤ k := by
  induction xs generalizing seen with
  | nil =>
    rw [admitted, append_nil]
    exact ⟨fun _ => hseen, fun _ => rfl⟩
  | cons a xs ih =>
    have hsplit : seen ++ a :: xs = (seen ++ [a]) ++ xs := by
      rw [append_assoc, singleton_append]
    rw [admitted, hsplit]
    by_cases ha : distinct (seen ++ [a]) ≤ k
    · rw [if_pos ha, cons.injEq]
      exact ⟨fun h => (ih _ ha).mp h.2, fun h => ⟨rfl, (ih _ ha).mpr h⟩⟩
    rw [if_neg ha]
    constructor
    · intro h
      cases h
    · intro h
      exact absurd (le_trans (distinct_le_append _ xs) h) ha

/-- One more value is admitted if nothing was left out before and it fits. -/
theorem admitted_snoc (seen xs : List α) (a : α) : admitted k seen (xs ++ [a]) =
      if admitted k seen xs = xs ∧ distinct (seen ++ xs ++ [a]) ≤ k then xs ++ [a]
      else admitted k seen xs := by
  induction xs generalizing seen with
  | nil =>
    rw [nil_append, admitted, admitted, admitted, append_nil]
    by_cases ha : distinct (seen ++ [a]) ≤ k
    · rw [if_pos ha, if_pos ⟨rfl, ha⟩]
    · rw [if_neg ha, if_neg (fun h => ha h.2)]
  | cons b xs ih =>
    have hsplit : seen ++ b :: xs = (seen ++ [b]) ++ xs := by
      rw [append_assoc, singleton_append]
    rw [cons_append, admitted, admitted, hsplit]
    by_cases hb : distinct (seen ++ [b]) ≤ k
    · have hinj : (b :: admitted k (seen ++ [b]) xs = b :: xs) ↔
          admitted k (seen ++ [b]) xs = xs := cons_inj_right b
      rw [if_pos hb, if_pos hb, ih (seen ++ [b])]
      simp only [hinj]
      split
      · rfl
      · rfl
    · rw [if_neg hb, if_neg hb, if_neg]
      intro h
      cases h.1

theorem admitted_of_distinct_le {xs : List α} (h : distinct xs ≤ k) : admitted k [] xs = xs :=
  (admitted_eq_self_iff [] xs (zero_le k)).mpr h

theorem map_fst_tally (cap : Nat) (xs : List α) : (tally cap xs).map Prod.fst = xs.eraseDups := by
  unfold tally
  rw [map_map]
  exact map_id _

theorem length_tally (cap : Nat) (xs : List α) : (tally cap xs).length = distinct xs :=
  length_map _

/-- A value seen before is counted in its slot. -/
theorem tally_snoc_mem {xs : List α} {a : α} (ha : a ∈ xs) :
    tally cap (xs ++ [a]) = (tally cap xs).map (bump cap a) := by
  unfold tally
  rw [eraseDups_snoc, if_pos ha, map_map]
  apply map_congr_left
  intro b _
  rw [Function.comp_apply, bump, count_append]
  by_cases hb : b = a
  · subst hb
    rw [if_pos rfl, count_singleton_self, Prod.mk.injEq]
    exact ⟨rfl, by omega⟩
  · rw [if_neg hb, count_singleton, if_neg (by simpa using Ne.symm hb), add_zero]

theorem tally_snoc_new {xs : List α} {a : α} (ha : a ∉ xs) (hcap : 0 < cap) :
    tally cap (xs ++ [a]) = tally cap xs ++ [(a, 1)] := by
  unfold tally
  rw [eraseDups_snoc, if_neg ha, map_append, map_singleton]
  congr 1
  · apply map_congr_left
    intro b hb
    have hne : ¬ a = b := fun h => ha (h ▸ mem_eraseDups.mp hb)
    rw [count_append, count_singleton, if_neg (by simpa using hne), add_zero]
  · rw [count_append, count_eq_zero_of_not_mem ha, count_singleton_self]
    have hone : min cap (0 + 1) = 1 := by omega
    rw [hone]

/-- Counts below the cap add up to the number of values. -/
theorem sum_tally {xs : List α} (hcap : xs.length ≤ cap) :
    ((tally cap xs).map Prod.snd).sum = xs.length := by
  have hperm : xs.eraseDups.Perm xs.dedup := by
    refine (perm_ext_iff_of_nodup (nodup_eraseDups xs) xs.nodup_dedup).mpr fun a => ?_
    rw [mem_eraseDups, mem_dedup]
  have hcounts : (tally cap xs).map Prod.snd = xs.eraseDups.map fun a => xs.count a := by
    unfold tally
    rw [map_map]
    apply map_congr_left
    intro a _
    have hle : xs.count a ≤ xs.length := count_le_length
    show min cap (xs.count a) = xs.count a
    omega
  rw [hcounts, (hperm.map _).sum_eq]
  exact sum_map_count_dedup_eq_length xs

theorem foldl_observe (k cap : Nat) (hcap : 0 < cap) (xs : List α) :
    xs.foldl (observe k cap) {} = ⟨tally cap (admitted k [] xs), decide (k < distinct xs)⟩ := by
  induction xs using reverseRecOn with
  | nil => rfl
  | append_singleton xs a ih =>
    rw [foldl_append, ih, foldl_cons, foldl_nil, admitted_snoc, nil_append]
    have hself := admitted_eq_self_iff [] xs (zero_le k)
    rw [nil_append] at hself
    unfold observe
    dsimp only
    by_cases hfull : k < distinct xs
    · have hmore := distinct_le_append xs [a]
      rw [decide_eq_true hfull, if_pos rfl, if_neg (fun h => by omega),
        decide_eq_true (by omega : k < distinct (xs ++ [a]))]
    have hall : admitted k [] xs = xs := hself.mpr (by omega)
    rw [decide_eq_false hfull, if_neg Bool.false_ne_true, hall, map_fst_tally, length_tally,
      distinct_snoc]
    by_cases ha : a ∈ xs
    · rw [if_pos (mem_eraseDups.mpr ha), if_pos ha, if_pos ⟨rfl, by omega⟩,
        tally_snoc_mem ha, decide_eq_false hfull]
    rw [if_neg (fun h => ha (mem_eraseDups.mp h)), if_neg ha]
    by_cases hroom : distinct xs < k
    · rw [if_pos hroom, if_pos ⟨rfl, by omega⟩, tally_snoc_new ha hcap,
        decide_eq_false (by omega : ¬ k < distinct xs + 1)]
    · rw [if_neg hroom, if_neg (fun h => by omega),
        decide_eq_true (by omega : k < distinct xs + 1)]

end Histogram

end B2Compiler.Lib
