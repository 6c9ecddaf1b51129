import Mathlib.Data.List.Pairwise
import Mathlib.Data.List.Sort

/-!
# Ordered maps

Finite maps as association lists in strictly ascending key order, the order in which
an ordered map is walked.  Every operation has a lemma for what it does to lookups
and one for the order.
-/

namespace B2Compiler.Lib.OrderedMap

open List

variable {κ V : Type} [LinearOrder κ]

/-- Entries in ascending key order. -/
def Sorted (m : List (κ × V)) : Prop := m.Pairwise fun e e' => e.1 < e'.1

def find : List (κ × V) → κ → Option V
  | [], _ => none
  | e :: m, k => if e.1 = k then some e.2 else find m k

/-- Store a value, replacing the one at the same key. -/
def insert : List (κ × V) → κ → V → List (κ × V)
  | [], k, v => [(k, v)]
  | e :: m, k, v =>
    if k < e.1 then (k, v) :: e :: m
    else if k = e.1 then (k, v) :: m
    else e :: insert m k v

/-- Remove a key. -/
def erase (m : List (κ × V)) (k : κ) : List (κ × V) := m.filter fun e => e.1 ≠ k

theorem find_eq_none_iff {m : List (κ × V)} {k : κ} : find m k = none ↔ ∀ e ∈ m, e.1 ≠ k := by
  induction m with
  | nil => simp [find]
  | cons e m ih =>
    by_cases hk : e.1 = k
    · simp [find, hk]
    · simp [find, hk, ih]

/-- In an ordered map an entry is what its key finds. -/
theorem find_of_mem {m : List (κ × V)} (hm : Sorted m) {e : κ × V} (h : e ∈ m) :
    find m e.1 = some e.2 := by
  induction m with
  | nil => cases h
  | cons d m ih =>
    obtain ⟨hd, hm⟩ := pairwise_cons.mp hm
    rcases mem_cons.mp h with rfl | hmem
    · simp [find]
    · have hne : d.1 ≠ e.1 := ne_of_lt (hd e hmem)
      simp only [find, hne, if_false]
      exact ih hm hmem

theorem isSome_find_iff {m : List (κ × V)} {k : κ} : (find m k).isSome ↔ k ∈ m.map Prod.fst := by
  rw [← not_iff_not, Bool.not_eq_true, Option.isSome_eq_false_iff, Option.isNone_iff_eq_none,
    find_eq_none_iff]
  simp only [mem_map, not_exists, not_and, ne_eq]

@[simp] theorem find_insert (m : List (κ × V)) (k j : κ) (v : V) :
    find (insert m k v) j = if j = k then some v else find m j := by
  induction m with
  | nil =>
    by_cases hj : j = k
    · simp [insert, find, hj]
    · simp [insert, find, hj, Ne.symm hj]
  | cons e m ih =>
    rcases lt_trichotomy k e.1 with hlt | heq | hgt
    · by_cases hj : j = k
      · simp [insert, hlt, find, hj]
      · simp [insert, hlt, find, hj, Ne.symm hj]
    · by_cases hj : j = k
      · simp [insert, heq, find, hj]
      · simp [insert, ← heq, find, hj, Ne.symm hj]
    have hne : k ≠ e.1 := ne_of_gt hgt
    by_cases hj : j = k
    · subst hj
      simp only [if_true] at ih ⊢
      simp [insert, not_lt_of_gt hgt, hne, find, Ne.symm hne, ih]
    · simp [insert, not_lt_of_gt hgt, hne, find, hj, ih]

theorem mem_insert {m : List (κ × V)} {k : κ} {v : V} {e : κ × V} (h : e ∈ insert m k v) :
    e = (k, v) ∨ e ∈ m := by
  induction m with
  | nil => exact Or.inl (mem_singleton.mp h)
  | cons d m ih =>
    unfold insert at h
    split at h
    · simpa using h
    split at h
    · rcases mem_cons.mp h with h | h
      · exact Or.inl h
      · exact Or.inr (mem_cons_of_mem d h)
    · rcases mem_cons.mp h with h | h
      · exact Or.inr (h ▸ mem_cons_self)
      · exact (ih h).imp_right (mem_cons_of_mem d)

theorem sorted_insert {m : List (κ × V)} (hm : Sorted m) (k : κ) (v : V) :
    Sorted (insert m k v) := by
  induction m with
  | nil => exact pairwise_singleton _ _
  | cons e m ih =>
    obtain ⟨he, htail⟩ := pairwise_cons.mp hm
    unfold insert
    split
    · rename_i hlt
      refine pairwise_cons.mpr ⟨?_, hm⟩
      intro d hd
      rcases mem_cons.mp hd with rfl | hd
      · exact hlt
      · exact lt_trans hlt (he d hd)
    · rename_i hnlt
      split
      · rename_i heq
        refine pairwise_cons.mpr ⟨?_, htail⟩
        intro d hd
        rw [heq]
        exact he d hd
      · rename_i hne
        have hgt : e.1 < k := lt_of_le_of_ne (not_lt.mp hnlt) (Ne.symm hne)
        refine pairwise_cons.mpr ⟨?_, ih htail⟩
        intro d hd
        rcases mem_insert hd with rfl | hd
        · exact hgt
        · exact he d hd

theorem sorted_filter {m : List (κ × V)} (hm : Sorted m) (p : κ × V → Bool) :
    Sorted (m.filter p) := hm.filter p

theorem find_filter (m : List (κ × V)) (p : κ → Bool) (k : κ) :
    find (m.filter fun e => p e.1) k = if p k then find m k else none := by
  induction m with
  | nil => simp [find]
  | cons e m ih =>
    by_cases hk : e.1 = k
    · by_cases hp : p k
      · simp [hk, hp, find]
      · simp [hk, hp, ih]
    · by_cases he : p e.1
      all_goals simp [he, find, hk, ih]

@[simp] theorem find_erase (m : List (κ × V)) (k j : κ) :
    find (erase m k) j = if j = k then none else find m j := by
  have h := find_filter m (fun i => decide (i ≠ k)) j
  by_cases hj : j = k
  all_goals simpa [erase, hj] using h

theorem sorted_erase {m : List (κ × V)} (hm : Sorted m) (k : κ) : Sorted (erase m k) :=
  sorted_filter hm _

/-! ## Rebuilding under another numbering of the keys -/

/-- Insert the entries of a list one after another, each under the image of its key. -/
def rekey (f : κ → κ) (m : List (κ × V)) : List (κ × V) :=
  m.foldl (fun acc e => insert acc (f e.1) e.2) []

theorem sorted_foldl_insert (f : κ → κ) (m acc : List (κ × V)) (hacc : Sorted acc) :
    Sorted (m.foldl (fun acc e => insert acc (f e.1) e.2) acc) := by
  induction m generalizing acc with
  | nil => exact hacc
  | cons e m ih => exact ih _ (sorted_insert hacc _ _)

theorem sorted_rekey (f : κ → κ) (m : List (κ × V)) : Sorted (rekey f m) :=
  sorted_foldl_insert f m [] List.Pairwise.nil

theorem mem_foldl_insert (f : κ → κ) (m acc : List (κ × V)) {e : κ × V}
    (h : e ∈ m.foldl (fun acc e => insert acc (f e.1) e.2) acc) :
    e ∈ acc ∨ ∃ d ∈ m, e = (f d.1, d.2) := by
  induction m generalizing acc with
  | nil => exact Or.inl h
  | cons c m ih =>
    rcases ih _ h with hacc | ⟨d, hd, heq⟩
    · rcases mem_insert hacc with heq | hacc
      · exact Or.inr ⟨c, mem_cons_self, heq⟩
      · exact Or.inl hacc
    · exact Or.inr ⟨d, mem_cons_of_mem c hd, heq⟩

/-- Every entry is the renumbering of an old one. -/
theorem mem_rekey {f : κ → κ} {m : List (κ × V)} {e : κ × V} (h : e ∈ rekey f m) :
    ∃ d ∈ m, e = (f d.1, d.2) := by
  rcases mem_foldl_insert f m [] h with hnil | hd
  · cases hnil
  · exact hd

/-- A key that is the image of none of the entries is left as it was. -/
theorem find_foldl_insert_of_ne (f : κ → κ) (m acc : List (κ × V)) (j : κ)
    (h : ∀ e ∈ m, f e.1 ≠ j) :
    find (m.foldl (fun acc e => insert acc (f e.1) e.2) acc) j = find acc j := by
  induction m generalizing acc with
  | nil => rfl
  | cons e m ih =>
    rw [foldl_cons, ih _ fun d hd => h d (mem_cons_of_mem e hd), find_insert,
      if_neg (h e mem_cons_self).symm]

theorem find_rekey_of_ne (f : κ → κ) (m : List (κ × V)) (j : κ) (h : ∀ e ∈ m, f e.1 ≠ j) :
    find (rekey f m) j = none := find_foldl_insert_of_ne f m [] j h

/-- A numbering that keeps the keys apart keeps the values. -/
theorem find_foldl_insert (f : κ → κ) {m : List (κ × V)} (hm : Sorted m) (acc : List (κ × V))
    (k : κ) (hf : ∀ e ∈ m, f e.1 = f k → e.1 = k) :
    find (m.foldl (fun acc e => insert acc (f e.1) e.2) acc) (f k) =
      (find m k).or (find acc (f k)) := by
  induction m generalizing acc with
  | nil => rfl
  | cons e m ih =>
    obtain ⟨he, hm⟩ := pairwise_cons.mp hm
    have hf' : ∀ d ∈ m, f d.1 = f k → d.1 = k := fun d hd => hf d (mem_cons_of_mem e hd)
    rw [foldl_cons]
    by_cases hk : e.1 = k
    · have hrest : ∀ d ∈ m, f d.1 ≠ f k := by
        intro d hd heq
        have hlt := he d hd
        rw [hk, hf' d hd heq] at hlt
        exact lt_irrefl k hlt
      rw [find_foldl_insert_of_ne f m _ _ hrest, find_insert, hk, if_pos rfl]
      simp [find, hk]
    · have hne : f k ≠ f e.1 := fun h => hk (hf e mem_cons_self h.symm)
      rw [ih hm _ hf', find_insert, if_neg hne]
      simp [find, hk]

theorem find_rekey (f : κ → κ) {m : List (κ × V)} (hm : Sorted m) (k : κ)
    (hf : ∀ e ∈ m, f e.1 = f k → e.1 = k) : find (rekey f m) (f k) = find m k := by
  rw [rekey, find_foldl_insert f hm [] k hf]
  exact Option.or_none

end B2Compiler.Lib.OrderedMap
