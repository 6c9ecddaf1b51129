import Mathlib.Algebra.Order.Ring.Nat
import Mathlib.Data.Finset.Card
import Mathlib.Data.Finset.Union

/-!
# Round-robin dataflow over finite sets

A backward analysis keeps one finite set per node and recomputes the sets of all
nodes, the last one first and in place, until a whole pass changes nothing.  This
module proves the discipline once, for any monotone transfer function: started
from empty sets the table only grows, so it settles after at most as many passes
as there are elements to add, and what it settles at is a fixpoint.
-/

namespace B2Compiler.Lib.Sweep

open List Finset

variable {ρ : Type*} [DecidableEq ρ]

/-- The set of a node; a node outside the table has the empty set. -/
def setAt (t : List (Finset ρ)) (p : Nat) : Finset ρ := t.getD p ∅

omit [DecidableEq ρ] in
theorem setAt_set_self {t : List (Finset ρ)} {p : Nat} (hp : p < t.length) (s : Finset ρ) :
    setAt (t.set p s) p = s := by
  simp [setAt, hp]

omit [DecidableEq ρ] in
theorem setAt_set_ne {t : List (Finset ρ)} {p q : Nat} (hq : q ≠ p) (s : Finset ρ) :
    setAt (t.set p s) q = setAt t q := by
  simp [setAt, getElem?_set_ne (Ne.symm hq)]

omit [DecidableEq ρ] in
theorem setAt_of_le {t : List (Finset ρ)} {p : Nat} (hp : t.length ≤ p) : setAt t p = ∅ := by
  simp [setAt, hp]

omit [DecidableEq ρ] in
/-- Tables of one length with the same sets are the same table. -/
theorem ext_setAt {t u : List (Finset ρ)} (hlen : t.length = u.length)
    (h : ∀ p, setAt t p = setAt u p) : t = u := by
  apply ext_getElem hlen
  intro p hp hq
  have hset := h p
  simp only [setAt, getD_eq_getElem?_getD, getElem?_eq_getElem hp,
    getElem?_eq_getElem hq, Option.getD_some] at hset
  exact hset

/-! ## Passes -/

/-- Recompute the sets of the nodes below `n`, the last one first. -/
def sweep (f : Nat → (Nat → Finset ρ) → Finset ρ) : Nat → List (Finset ρ) → List (Finset ρ)
  | 0, t => t
  | p + 1, t => sweep f p (t.set p (f p (setAt t)))

/-- Repeat the pass over `n` nodes until nothing changes; `none` when the fuel does
not last. -/
def solve (f : Nat → (Nat → Finset ρ) → Finset ρ) (n : Nat) :
    Nat → List (Finset ρ) → Option (List (Finset ρ))
  | 0, _ => none
  | fuel + 1, t =>
    let t' := sweep f n t
    if t' = t then some t' else solve f n fuel t'

variable {f : Nat → (Nat → Finset ρ) → Finset ρ}

/-- The transfer function takes larger tables to larger sets. -/
def Monotone (f : Nat → (Nat → Finset ρ) → Finset ρ) : Prop :=
  ∀ p g h, (∀ q, g q ⊆ h q) → f p g ⊆ f p h

/-- Every set is below what the transfer function makes of the table. -/
def Growing (f : Nat → (Nat → Finset ρ) → Finset ρ) (t : List (Finset ρ)) : Prop :=
  ∀ p, setAt t p ⊆ f p (setAt t)

omit [DecidableEq ρ] in
@[simp] theorem length_sweep (n : Nat) (t : List (Finset ρ)) : (sweep f n t).length = t.length := by
  induction n generalizing t with
  | zero => rfl
  | succ n ih => rw [sweep, ih, length_set]

omit [DecidableEq ρ] in
/-- Recomputing one set of a growing table adds elements only. -/
theorem subset_set {t : List (Finset ρ)} (ht : Growing f t) (p q : Nat) :
    setAt t q ⊆ setAt (t.set p (f p (setAt t))) q := by
  by_cases hq : q = p
  · subst hq
    by_cases hlt : q < t.length
    · rw [setAt_set_self hlt]
      exact ht q
    · rw [setAt_of_le (by omega)]
      exact empty_subset _
  · rw [setAt_set_ne hq]

omit [DecidableEq ρ] in
theorem Growing.set {t : List (Finset ρ)} (ht : Growing f t) (hf : Monotone f) (p : Nat) :
    Growing f (t.set p (f p (setAt t))) := by
  intro q
  have hmono : f q (setAt t) ⊆ f q (setAt (t.set p (f p (setAt t)))) :=
    hf q _ _ (subset_set ht p)
  by_cases hq : q = p
  · subst hq
    by_cases hlt : q < t.length
    · rw [setAt_set_self hlt] at *
      exact hmono
    · rw [setAt_of_le (by rw [length_set]; omega)]
      exact empty_subset _
  · rw [setAt_set_ne hq]
    exact (ht q).trans hmono

omit [DecidableEq ρ] in
theorem Growing.sweep {t : List (Finset ρ)} (ht : Growing f t) (hf : Monotone f) (n : Nat) :
    Growing f (sweep f n t) := by
  induction n generalizing t with
  | zero => exact ht
  | succ n ih => exact ih (ht.set hf n)

omit [DecidableEq ρ] in
/-- A pass over a growing table adds elements only. -/
theorem subset_sweep {t : List (Finset ρ)} (ht : Growing f t) (hf : Monotone f) (n q : Nat) :
    setAt t q ⊆ setAt (Sweep.sweep f n t) q := by
  induction n generalizing t with
  | zero => exact Finset.Subset.refl _
  | succ n ih => exact (subset_set ht n q).trans (ih (ht.set hf n))

omit [DecidableEq ρ] in
/-- A pass that changes nothing recomputes every set to itself. -/
theorem fixpoint_of_sweep {t : List (Finset ρ)} (ht : Growing f t) (hf : Monotone f) {n : Nat}
    (hn : n ≤ t.length) (h : Sweep.sweep f n t = t) :
    ∀ p, p < n → f p (setAt t) = setAt t p := by
  induction n with
  | zero =>
    intro p hp
    omega
  | succ n ih =>
    -- the first update lies between the table and the end of the pass
    have hstep : t.set n (f n (setAt t)) = t := by
      apply ext_setAt (length_set ..)
      intro q
      apply Finset.Subset.antisymm
      · have hrest := subset_sweep (ht.set hf n) hf n q
        rw [Sweep.sweep] at h
        rwa [h] at hrest
      · exact subset_set ht n q
    have hrest : Sweep.sweep f n t = t := by
      rw [Sweep.sweep, hstep] at h
      exact h
    intro p hp
    by_cases hpn : p = n
    · subst hpn
      have hself := setAt_set_self (show p < t.length by omega) (f p (setAt t))
      rw [hstep] at hself
      exact hself.symm
    · exact ih (by omega) hrest p (by omega)

/-! ## Termination -/

/-- Number of elements in all sets together. -/
def total (t : List (Finset ρ)) : Nat := (t.map card).sum

omit [DecidableEq ρ] in
theorem total_le {U : Finset ρ} {t : List (Finset ρ)} (h : ∀ s ∈ t, s ⊆ U) :
    total t ≤ t.length * U.card := by
  induction t with
  | nil => exact Nat.zero_le _
  | cons s t ih =>
    have hhead : s.card ≤ U.card := card_le_card (h s mem_cons_self)
    have htail := ih fun s' hs' => h s' (mem_cons_of_mem s hs')
    show s.card + total t ≤ (t.length + 1) * U.card
    rw [Nat.succ_mul]
    omega

omit [DecidableEq ρ] in
/-- A larger table of the same length has more elements. -/
theorem total_lt {t u : List (Finset ρ)} (hlen : t.length = u.length)
    (hsub : ∀ p, setAt t p ⊆ setAt u p) (hne : t ≠ u) : total t < total u := by
  induction t generalizing u with
  | nil =>
    cases u with
    | nil => exact absurd rfl hne
    | cons s u => cases hlen
  | cons s t ih =>
    cases u with
    | nil => cases hlen
    | cons s' u =>
      have hhead : s ⊆ s' := hsub 0
      have htail : ∀ p, setAt t p ⊆ setAt u p := fun p => hsub (p + 1)
      have hlen' : t.length = u.length := Nat.succ.inj hlen
      have hcard : s.card ≤ s'.card := card_le_card hhead
      show s.card + total t < s'.card + total u
      by_cases htu : t = u
      · subst htu
        have hss : s ≠ s' := fun hc => hne (by rw [hc])
        have hlt := Finset.card_lt_card (Finset.ssubset_iff_subset_ne.mpr ⟨hhead, hss⟩)
        omega
      · have hlt := ih hlen' htail htu
        omega

/-- The sets of a table stay inside `U`. -/
def Within (U : Finset ρ) (t : List (Finset ρ)) : Prop := ∀ s ∈ t, s ⊆ U

omit [DecidableEq ρ] in
theorem Within.sweep {U : Finset ρ} {t : List (Finset ρ)} (ht : Within U t)
    (hU : ∀ p g, (∀ q, g q ⊆ U) → f p g ⊆ U) (n : Nat) : Within U (sweep f n t) := by
  induction n generalizing t with
  | zero => exact ht
  | succ n ih =>
    apply ih
    intro s hs
    rcases mem_or_eq_of_mem_set hs with hs | rfl
    · exact ht s hs
    apply hU
    intro q
    by_cases hq : q < t.length
    · rw [setAt, getD_eq_getElem?_getD, getElem?_eq_getElem hq]
      exact ht _ (getElem_mem hq)
    · rw [setAt_of_le (by omega)]
      exact empty_subset _

/-- With room for every element the iteration settles, and it settles at a growing
fixpoint of the transfer function. -/
theorem solve_spec {U : Finset ρ} (hf : Monotone f)
    (hU : ∀ p g, (∀ q, g q ⊆ U) → f p g ⊆ U) {n fuel : Nat} {t : List (Finset ρ)}
    (hlen : t.length = n) (hgrow : Growing f t) (hin : Within U t)
    (hfuel : n * U.card < total t + fuel) :
    ∃ u, solve f n fuel t = some u ∧ u.length = n ∧ ∀ p, p < n → f p (setAt u) = setAt u p := by
  induction fuel generalizing t with
  | zero =>
    have hle := total_le hin
    rw [hlen] at hle
    omega
  | succ fuel ih =>
    rw [solve]
    by_cases hsame : sweep f n t = t
    · rw [if_pos hsame]
      refine ⟨t, by rw [hsame], hlen, ?_⟩
      exact fixpoint_of_sweep hgrow hf (by omega) hsame
    · rw [if_neg hsame]
      have hlt : total t < total (sweep f n t) :=
        total_lt (length_sweep n t).symm (subset_sweep hgrow hf n) (Ne.symm hsame)
      exact ih ((length_sweep n t).trans hlen) (hgrow.sweep hf n) (hin.sweep hU n) (by omega)

/-- What the transfer passes on from its sets, a pass passes on. -/
theorem sweep_invariant {P : Nat → ρ → Prop}
    (hf : ∀ p g, (∀ q, ∀ r ∈ g q, P q r) → ∀ r ∈ f p g, P p r) {n : Nat} {t : List (Finset ρ)}
    (ht : ∀ q, ∀ r ∈ setAt t q, P q r) : ∀ q, ∀ r ∈ setAt (sweep f n t) q, P q r := by
  induction n generalizing t with
  | zero => exact ht
  | succ p ih =>
    refine ih fun q r hr => ?_
    by_cases hq : q = p
    · subst hq
      by_cases hlt : q < t.length
      · rw [setAt_set_self hlt] at hr
        exact hf q (setAt t) ht r hr
      · have hempty : setAt (t.set q (f q (setAt t))) q = ∅ :=
          setAt_of_le (by rw [length_set]; omega)
        rw [hempty] at hr
        simp at hr
    · rw [setAt_set_ne hq] at hr
      exact ht q r hr

/-- The solution holds nothing the transfer does not force. -/
theorem solve_least {P : Nat → ρ → Prop}
    (hf : ∀ p g, (∀ q, ∀ r ∈ g q, P q r) → ∀ r ∈ f p g, P p r) {n fuel : Nat}
    {t u : List (Finset ρ)} (ht : ∀ q, ∀ r ∈ setAt t q, P q r) (h : solve f n fuel t = some u) :
    ∀ q, ∀ r ∈ setAt u q, P q r := by
  induction fuel generalizing t with
  | zero => cases h
  | succ fuel ih =>
    rw [solve] at h
    split at h
    · cases h
      exact sweep_invariant hf ht
    · exact ih (sweep_invariant hf ht) h

end B2Compiler.Lib.Sweep
