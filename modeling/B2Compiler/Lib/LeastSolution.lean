import Mathlib.Order.WithBot
import B2Compiler.Lib.Worklist

/-!
# Worklists in any order

The equations of a dataflow problem say that the state of a node is the meet of the seeds and of
the edges into it; a node that nothing reaches has no state, which is `⊤` here.  Read upwards,
from no state over few merges to many, the greatest solution in this order is the least one: it
merges no more than the equations ask for.  When edges are monotone, a worklist that takes its
entries in any order stays above that solution, runs a bounded number of rounds, and stands at it
when the queue is empty.
-/

namespace B2Compiler.Lib

open List

namespace Worklist

variable {σ : Type*} [SemilatticeInf σ]

/-! ## The equations -/

/-- States of the nodes; `⊤` is a node that nothing reaches. -/
abbrev Table (σ : Type*) := Nat → WithTop σ

def table (w : Worklist σ) : Table σ := w.inAt

def meet (l : List σ) : WithTop σ := (l.map WithTop.some).foldr (· ⊓ ·) ⊤

/-- Edges out of a node that has a state. -/
def outgoing (edges : Nat → σ → List (Nat × σ)) (T : Table σ) (c : Nat) : List (Nat × σ) :=
  match T c with
  | none => []
  | some s => edges c s

/-- The states that the seeds and the nodes below `n` push into a node. -/
def incoming (seeds : List (Nat × σ)) (edges : Nat → σ → List (Nat × σ)) (n : Nat) (T : Table σ)
    (b : Nat) : List σ :=
  ((seeds ++ (range n).flatMap (outgoing edges T)).filter (fun e => e.1 = b)).map Prod.snd

/-- The right-hand sides of the equations. -/
def merged (seeds : List (Nat × σ)) (edges : Nat → σ → List (Nat × σ)) (n : Nat) (T : Table σ) :
    Table σ :=
  fun b => meet (incoming seeds edges n T b)

/-- A solution of the equations above which no other solution reaches. -/
structure LeastSolution (seeds : List (Nat × σ)) (edges : Nat → σ → List (Nat × σ)) (n : Nat)
    (T : Table σ) : Prop where
  solves : T = merged seeds edges n T
  least : ∀ T', T' = merged seeds edges n T' → T' ≤ T

theorem LeastSolution.unique {seeds : List (Nat × σ)} {edges : Nat → σ → List (Nat × σ)}
    {n : Nat} {T T' : Table σ} (h : LeastSolution seeds edges n T)
    (h' : LeastSolution seeds edges n T') : T = T' :=
  le_antisymm (h'.least T h.solves) (h.least T' h'.solves)

theorem le_meet_iff {x : WithTop σ} {l : List σ} : x ≤ meet l ↔ ∀ s ∈ l, x ≤ (s : WithTop σ) := by
  induction l with
  | nil =>
    constructor
    · intro _ s hs
      cases hs
    · intro _
      exact le_top
  | cons a l ih =>
    have hcons : meet (a :: l) = (a : WithTop σ) ⊓ meet l := rfl
    rw [hcons, le_inf_iff, ih, forall_mem_cons]

section Equations

variable {seeds : List (Nat × σ)} {edges : Nat → σ → List (Nat × σ)} {n : Nat}

omit [SemilatticeInf σ] in
theorem mem_incoming {T : Table σ} {b : Nat} {s : σ} : s ∈ incoming seeds edges n T b ↔
      (b, s) ∈ seeds ∨ ∃ (c : Nat) (u : σ), c < n ∧ T c = (u : WithTop σ) ∧ (b, s) ∈ edges c u := by
  unfold incoming
  rw [mem_map]
  constructor
  · rintro ⟨⟨b', s'⟩, hmem, rfl⟩
    rw [mem_filter, decide_eq_true_eq] at hmem
    obtain ⟨hmem, rfl⟩ := hmem
    rcases mem_append.mp hmem with hseed | hedge
    · exact Or.inl hseed
    obtain ⟨c, hc, hout⟩ := mem_flatMap.mp hedge
    unfold outgoing at hout
    split at hout
    · cases hout
    · rename_i u hu
      exact Or.inr ⟨c, u, mem_range.mp hc, hu, hout⟩
  · intro h
    refine ⟨(b, s), mem_filter.mpr ⟨mem_append.mpr ?_, by simp⟩, rfl⟩
    rcases h with hseed | ⟨c, u, hc, hu, hedge⟩
    · exact Or.inl hseed
    refine Or.inr (mem_flatMap.mpr ⟨c, mem_range.mpr hc, ?_⟩)
    have hout : outgoing edges T c = edges c u := by
      unfold outgoing
      rw [hu]
    rw [hout]
    exact hedge

/-- Lower states have lower edges. -/
def MonotoneEdges (edges : Nat → σ → List (Nat × σ)) : Prop :=
  ∀ c s t, s ≤ t → ∀ e ∈ edges c t, ∃ f ∈ edges c s, f.1 = e.1 ∧ f.2 ≤ e.2

/-- A table below its right-hand sides is below its seeds. -/
theorem le_seed {T : Table σ} (h : T ≤ merged seeds edges n T) {e : Nat × σ} (he : e ∈ seeds) :
    T e.1 ≤ (e.2 : WithTop σ) :=
  (le_meet_iff.mp (h e.1)) e.2 (mem_incoming.mpr (Or.inl he))

theorem le_edge {T : Table σ} (h : T ≤ merged seeds edges n T) {c : Nat} {s : σ} (hc : c < n)
    (hs : T c = (s : WithTop σ)) {e : Nat × σ} (he : e ∈ edges c s) :
    T e.1 ≤ (e.2 : WithTop σ) :=
  (le_meet_iff.mp (h e.1)) e.2 (mem_incoming.mpr (Or.inr ⟨c, s, hc, hs, he⟩))

theorem merged_mono (hmono : MonotoneEdges edges) {T T' : Table σ} (h : T ≤ T') :
    merged seeds edges n T ≤ merged seeds edges n T' := by
  intro b
  apply le_meet_iff.mpr
  intro s hs
  rcases mem_incoming.mp hs with hseed | ⟨c, u, hc, hu, hedge⟩
  · exact le_meet_iff.mp le_rfl s (mem_incoming.mpr (Or.inl hseed))
  have hle := h c
  rw [hu] at hle
  obtain ⟨v, hv, hvu⟩ := WithTop.le_coe_iff.mp hle
  obtain ⟨f, hf, hf1, hf2⟩ := hmono c v u hvu _ hedge
  have hmem : f.2 ∈ incoming seeds edges n T b := by
    apply mem_incoming.mpr
    refine Or.inr ⟨c, v, hc, hv, ?_⟩
    rw [← (show f.1 = b from hf1)]
    exact hf
  exact (le_meet_iff.mp le_rfl f.2 hmem).trans (WithTop.coe_le_coe.mpr hf2)

end Equations

/-! ## Rounds -/

variable [DecidableEq σ]

/-- `k` rounds: each takes an entry off the queue, wherever it stands, and pushes its edges. -/
inductive Rounds (edges : Nat → σ → List (Nat × σ)) : Nat → Worklist σ → Worklist σ → Prop
  | refl (w : Worklist σ) : Rounds edges 0 w w
  | visit {k : Nat} {w w' : Worklist σ} {front back : List Nat} {b : Nat} {s : σ} :
      Rounds edges k w w' → w'.queue = front ++ b :: back → w'.inAt b = some s →
      Rounds edges (k + 1) w ((Worklist.mk w'.ins (front ++ back)).absorbAll (edges b s))

/-- A worklist on its way: the seeds are in, and no table below its right-hand sides reaches
above the states. -/
structure Iterating (seeds : List (Nat × σ)) (edges : Nat → σ → List (Nat × σ)) (n : Nat)
    (w : Worklist σ) : Prop where
  length_eq : w.ins.length = n
  seeded : ∀ e ∈ seeds, Absorbs w e.1 e.2
  settled : Settled edges w
  queued : ∀ b ∈ w.queue, ∃ s, w.inAt b = some s
  sound : ∀ T, T ≤ merged seeds edges n T → T ≤ table w

section Iteration

variable {seeds : List (Nat × σ)} {edges : Nat → σ → List (Nat × σ)} {n : Nat}

omit [DecidableEq σ] in
theorem absorbs_iff {w : Worklist σ} {t : Nat} {e : σ} :
    Absorbs w t e ↔ table w t ≤ (e : WithTop σ) :=
  WithTop.le_coe_iff.symm

/-- What lies below the states and the pushed state lies below the states after the push. -/
theorem le_table_absorb {w : Worklist σ} {t : Nat} {e : σ} (ht : t < w.ins.length)
    {T : Table σ} (h : T ≤ table w) (he : T t ≤ (e : WithTop σ)) : T ≤ table (w.absorb t e) := by
  intro b
  cases hin : (w.absorb t e).inAt b with
  | none =>
    have htop : table (w.absorb t e) b = ⊤ := hin
    rw [htop]
    exact le_top
  | some s =>
    have hstate : table (w.absorb t e) b = (s : WithTop σ) := hin
    rw [hstate]
    rcases inAt_absorb ht hin with hold | ⟨rfl, rfl | ⟨s₀, hs₀, rfl⟩⟩
    · have hle := h b
      rw [show table w b = (s : WithTop σ) from hold] at hle
      exact hle
    · exact he
    · have hle := h b
      rw [show table w b = (s₀ : WithTop σ) from hs₀] at hle
      rw [WithTop.coe_inf]
      exact le_inf hle he

theorem le_table_absorbAll {es : List (Nat × σ)} {T : Table σ} :
    ∀ {w : Worklist σ}, (∀ e ∈ es, e.1 < w.ins.length) → T ≤ table w →
      (∀ e ∈ es, T e.1 ≤ (e.2 : WithTop σ)) → T ≤ table (w.absorbAll es) := by
  induction es with
  | nil => exact fun _ h _ => h
  | cons e es ih =>
    intro w hes h he
    have hlt := hes e mem_cons_self
    refine ih (fun f hf => ?_) (le_table_absorb hlt h (he e mem_cons_self))
      (fun f hf => he f (mem_cons_of_mem e hf))
    rw [(absorb_descends e.2 hlt).length_eq]
    exact hes f (mem_cons_of_mem e hf)

theorem Iterating.visit (hmono : MonotoneEdges edges)
    (hrange : ∀ b s, ∀ e ∈ edges b s, e.1 < n) {w : Worklist σ} (h : Iterating seeds edges n w)
    {q : List Nat} {b : Nat} {s : σ} (hq : ∀ c ∈ w.queue, c = b ∨ c ∈ q)
    (hsub : ∀ c ∈ q, c ∈ w.queue) (hs : w.inAt b = some s) :
    Iterating seeds edges n ((Worklist.mk w.ins q).absorbAll (edges b s)) := by
  have hlt : ∀ e ∈ edges b s, e.1 < (Worklist.mk w.ins q).ins.length := by
    intro e he
    have hbound := hrange b s e he
    rw [← h.length_eq] at hbound
    exact hbound
  have hdesc := (absorbAll_spec hlt).1
  refine ⟨hdesc.length_eq.trans h.length_eq, ?_, h.settled.visit hq hs hlt, ?_, ?_⟩
  · intro e he
    have habs : Absorbs (Worklist.mk w.ins q) e.1 e.2 := h.seeded e he
    exact habs.descend hdesc
  · exact queued_absorbAll hlt (fun c hc => h.queued c (hsub c hc))
  intro T hT
  have hbelow : T ≤ table (Worklist.mk w.ins q) := h.sound T hT
  refine le_table_absorbAll hlt hbelow ?_
  intro e he
  -- the node's state in `T` is lower, so its edges are
  have hle := hbelow b
  rw [show table (Worklist.mk w.ins q) b = (s : WithTop σ) from hs] at hle
  obtain ⟨u, hu, hus⟩ := WithTop.le_coe_iff.mp hle
  obtain ⟨f, hf, hf1, hf2⟩ := hmono b u s hus e he
  have hb : b < n := by
    rw [← h.length_eq]
    exact lt_of_inAt hs
  have hedge := le_edge hT hb hu hf
  rw [hf1] at hedge
  exact hedge.trans (WithTop.coe_le_coe.mpr hf2)

theorem Iterating.rounds (hmono : MonotoneEdges edges)
    (hrange : ∀ b s, ∀ e ∈ edges b s, e.1 < n) {w w' : Worklist σ} {k : Nat}
    (h : Iterating seeds edges n w) (hr : Rounds edges k w w') : Iterating seeds edges n w' := by
  induction hr with
  | refl w => exact h
  | visit _ hq hs ih =>
    apply (ih h).visit hmono hrange _ _ hs
    · intro c hc
      rw [hq] at hc
      simp only [mem_append, mem_cons] at hc ⊢
      tauto
    · intro c hc
      rw [hq]
      simp only [mem_append, mem_cons] at hc ⊢
      tauto

omit [DecidableEq σ] in
theorem Iterating.least (hmono : MonotoneEdges edges) {w : Worklist σ}
    (h : Iterating seeds edges n w) (hempty : w.queue = []) :
    LeastSolution seeds edges n (table w) := by
  have hpre : table w ≤ merged seeds edges n (table w) := by
    intro b
    apply le_meet_iff.mpr
    intro s hs
    rcases mem_incoming.mp hs with hseed | ⟨c, u, _, hu, hedge⟩
    · exact absorbs_iff.mp (h.seeded _ hseed)
    · exact absorbs_iff.mp (h.settled c u hu (by rw [hempty]; exact not_mem_nil) _ hedge)
  constructor
  · -- the right-hand sides are below their own right-hand sides, hence not above the table
    exact le_antisymm hpre (h.sound _ (merged_mono hmono hpre))
  · intro T hT
    exact h.sound T (le_of_eq hT)

variable {weight : Option σ → Nat} (hNone : ∀ e, weight (some e) < weight none)
  (hSome : ∀ s e, s ⊓ e ≠ s → weight (some (s ⊓ e)) < weight (some s))
include hNone hSome

theorem length_potential_le {es : List (Nat × σ)} :
    ∀ {w : Worklist σ}, (∀ e ∈ es, e.1 < w.ins.length) →
      (w.absorbAll es).potential weight ≤ w.potential weight := by
  induction es with
  | nil => exact fun _ => Nat.le_refl _
  | cons e es ih =>
    intro w hes
    have he := hes e mem_cons_self
    have htail : ∀ f ∈ es, f.1 < (w.absorb e.1 e.2).ins.length := fun f hf => by
      rw [(absorb_descends e.2 he).length_eq]
      exact hes f (mem_cons_of_mem e hf)
    exact (ih htail).trans (potential_absorb_le hNone hSome e.2 he)

theorem rounds_le (hrange : ∀ b s, ∀ e ∈ edges b s, e.1 < n) {w w' : Worklist σ} {k : Nat}
    (hlen : w.ins.length = n) (hr : Rounds edges k w w') :
    w'.ins.length = n ∧ w'.potential weight + k ≤ w.potential weight := by
  induction hr with
  | refl w => exact ⟨hlen, Nat.le_refl _⟩
  | @visit k w w' front back b s _ hq _ ih =>
    obtain ⟨hlen', hpot⟩ := ih hlen
    have hlt : ∀ e ∈ edges b s, e.1 < (Worklist.mk w'.ins (front ++ back)).ins.length := by
      intro e he
      have hbound := hrange b s e he
      rw [← hlen'] at hbound
      exact hbound
    refine ⟨(absorbAll_spec hlt).1.length_eq.trans hlen', ?_⟩
    have hpush := length_potential_le hNone hSome hlt
    have htaken : (Worklist.mk w'.ins (front ++ back)).potential weight + 1 =
        w'.potential weight := by
      show (w'.ins.map weight).sum + (front ++ back).length + 1 =
        (w'.ins.map weight).sum + w'.queue.length
      rw [hq, length_append, length_append, length_cons]
      omega
    omega

theorem exists_drained
    (hmono : MonotoneEdges edges) (hrange : ∀ b s, ∀ e ∈ edges b s, e.1 < n) {w : Worklist σ}
    (h : Iterating seeds edges n w) : ∃ k w', Rounds edges k w w' ∧ w'.queue = [] := by
  by_contra hcon
  -- otherwise there are runs of any length
  have hlong : ∀ k, ∃ w', Rounds edges k w w' := by
    intro k
    induction k with
    | zero => exact ⟨w, .refl w⟩
    | succ k ih =>
      obtain ⟨w', hr⟩ := ih
      cases hq : w'.queue with
      | nil => exact absurd ⟨k, w', hr, hq⟩ hcon
      | cons b back =>
        obtain ⟨s, hs⟩ := (h.rounds hmono hrange hr).queued b (by rw [hq]; exact mem_cons_self)
        have hfront : w'.queue = [] ++ b :: back := hq
        exact ⟨_, .visit hr hfront hs⟩
  obtain ⟨w', hr⟩ := hlong (w.potential weight + 1)
  have hbound := (rounds_le hNone hSome hrange h.length_eq hr).2
  omega

end Iteration

end Worklist

end B2Compiler.Lib
