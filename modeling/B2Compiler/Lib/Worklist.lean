import Mathlib.Algebra.Order.Ring.Nat
import Mathlib.Order.Lattice
import Mathlib.Algebra.BigOperators.Group.List.Basic

/-!
# Worklist dataflow over a meet semilattice

A forward dataflow analysis keeps one in-state per node and a queue of nodes
whose outgoing edges still have to be pushed.  An unvisited node has no state:
the first edge into it is copied, later edges are met with what is there, and a
node whose state changed is queued again.  This module proves the discipline
once, for any node graph and any lattice: when the queue is empty every edge out
of every visited node is absorbed by the state of its target.
-/

namespace B2Compiler.Lib

open List

/-! ## State -/

/-- In-states (absent while a node is unvisited) and the queue of pending nodes. -/
structure Worklist (σ : Type*) where
  ins : List (Option σ)
  queue : List Nat
  deriving DecidableEq, Repr

namespace Worklist

variable {σ : Type*}

/-- In-state of a node, if it has been visited. -/
def inAt (w : Worklist σ) (b : Nat) : Option σ :=
  (w.ins[b]?).join

/-- Append a node to the queue unless it is already pending. -/
def enq (b : Nat) (q : List Nat) : List Nat :=
  if b ∈ q then q else q ++ [b]

variable {b t : Nat}

theorem mem_enq {c : Nat} {q : List Nat} : c ∈ enq b q ↔ c = b ∨ c ∈ q := by
  unfold enq
  by_cases hb : b ∈ q
  · rw [if_pos hb]
    constructor
    · exact Or.inr
    · rintro (rfl | hc)
      · exact hb
      · exact hc
  · rw [if_neg hb, mem_append, mem_singleton]
    exact or_comm

/-- Overwrite the state of a node and queue it. -/
def put (w : Worklist σ) (b : Nat) (s : σ) : Worklist σ :=
  ⟨w.ins.set b (some s), enq b w.queue⟩

theorem inAt_put_self {w : Worklist σ} (s : σ) (hb : b < w.ins.length) :
    (w.put b s).inAt b = some s := by
  simp [put, inAt, hb]

theorem inAt_put_of_ne {w : Worklist σ} {c : Nat} (s : σ) (hc : c ≠ b) :
    (w.put b s).inAt c = w.inAt c := by
  simp [put, inAt, getElem?_set_ne (Ne.symm hc)]

@[simp] theorem length_put (w : Worklist σ) (b : Nat) (s : σ) :
    (w.put b s).ins.length = w.ins.length := by
  simp [put]

theorem lt_of_inAt {w : Worklist σ} {s : σ} (h : w.inAt b = some s) : b < w.ins.length := by
  by_contra hb
  have hnone : w.ins[b]? = none := getElem?_eq_none (by omega)
  simp [inAt, hnone] at h

/-! ## Descent -/

variable [SemilatticeInf σ]

/-- The state of `t` lies below `e`. -/
def Absorbs (w : Worklist σ) (t : Nat) (e : σ) : Prop :=
  ∃ s, w.inAt t = some s ∧ s ≤ e

/-- `w'` is reached from `w` by pushing edges: states only descend, and a node
that is not pending afterwards was not pending before and kept its state. -/
structure Descends (w w' : Worklist σ) : Prop where
  length_eq : w'.ins.length = w.ins.length
  below : ∀ b s, w.inAt b = some s → ∃ s', w'.inAt b = some s' ∧ s' ≤ s
  settled : ∀ b, b ∉ w'.queue → b ∉ w.queue ∧ w'.inAt b = w.inAt b

theorem Descends.refl (w : Worklist σ) : Descends w w :=
  ⟨rfl, fun _ s hs => ⟨s, hs, le_rfl⟩, fun _ hb => ⟨hb, rfl⟩⟩

theorem Descends.trans {w₁ w₂ w₃ : Worklist σ} (h₁ : Descends w₁ w₂) (h₂ : Descends w₂ w₃) :
    Descends w₁ w₃ := by
  refine ⟨h₂.length_eq.trans h₁.length_eq, ?_, ?_⟩
  · intro b s hs
    obtain ⟨s₂, hs₂, hle₂⟩ := h₁.below b s hs
    obtain ⟨s₃, hs₃, hle₃⟩ := h₂.below b s₂ hs₂
    exact ⟨s₃, hs₃, hle₃.trans hle₂⟩
  · intro b hb
    obtain ⟨hb₂, heq₂⟩ := h₂.settled b hb
    obtain ⟨hb₁, heq₁⟩ := h₁.settled b hb₂
    exact ⟨hb₁, heq₂.trans heq₁⟩

theorem Absorbs.descend {w w' : Worklist σ} {e : σ} (h : Absorbs w t e) (hd : Descends w w') :
    Absorbs w' t e := by
  obtain ⟨s, hs, hle⟩ := h
  obtain ⟨s', hs', hle'⟩ := hd.below t s hs
  exact ⟨s', hs', hle'.trans hle⟩

/-- Replacing the state of a node by a lower one, or visiting it for the first
time, is a descent. -/
theorem descends_put {w : Worklist σ} {e : σ} (ht : t < w.ins.length)
    (hlow : ∀ s, w.inAt t = some s → e ≤ s) : Descends w (w.put t e) := by
  refine ⟨length_put w t e, ?_, ?_⟩
  · intro b s hs
    by_cases hbt : b = t
    · subst hbt
      exact ⟨e, inAt_put_self e ht, hlow s hs⟩
    · exact ⟨s, by rw [inAt_put_of_ne e hbt, hs], le_rfl⟩
  · intro b hb
    have hmem : ¬(b = t ∨ b ∈ w.queue) := fun hc => hb (mem_enq.mpr hc)
    have hbt : b ≠ t := fun hc => hmem (Or.inl hc)
    exact ⟨fun hc => hmem (Or.inr hc), inAt_put_of_ne e hbt⟩

/-! ## Pushing edges -/

variable [DecidableEq σ]

/-- Push the state `e` along an edge into `t`. -/
def absorb (w : Worklist σ) (t : Nat) (e : σ) : Worklist σ :=
  match w.inAt t with
  | none => w.put t e
  | some s => if s ⊓ e = s then w else w.put t (s ⊓ e)

theorem absorb_descends {w : Worklist σ} (e : σ) (ht : t < w.ins.length) :
    Descends w (w.absorb t e) := by
  unfold absorb
  cases hin : w.inAt t with
  | none => exact descends_put ht (fun s hs => by rw [hin] at hs; cases hs)
  | some s =>
    dsimp only
    by_cases heq : s ⊓ e = s
    · rw [if_pos heq]
      exact Descends.refl w
    · rw [if_neg heq]
      refine descends_put ht (fun s' hs' => ?_)
      rw [hin] at hs'
      cases hs'
      exact inf_le_left

theorem absorb_absorbs {w : Worklist σ} (e : σ) (ht : t < w.ins.length) :
    Absorbs (w.absorb t e) t e := by
  unfold absorb
  cases hin : w.inAt t with
  | none => exact ⟨e, inAt_put_self e ht, le_rfl⟩
  | some s =>
    dsimp only
    by_cases heq : s ⊓ e = s
    · rw [if_pos heq]
      exact ⟨s, hin, inf_eq_left.mp heq⟩
    · rw [if_neg heq]
      exact ⟨s ⊓ e, inAt_put_self _ ht, inf_le_right⟩

/-- The states after a push are the old ones, except that the target's may be the pushed
state or its meet with the old one. -/
theorem inAt_absorb {w : Worklist σ} {e s : σ} (ht : t < w.ins.length)
    (h : (w.absorb t e).inAt b = some s) :
    w.inAt b = some s ∨ (b = t ∧ (s = e ∨ ∃ s₀, w.inAt t = some s₀ ∧ s = s₀ ⊓ e)) := by
  unfold absorb at h
  cases hin : w.inAt t with
  | none =>
    rw [hin] at h
    by_cases hb : b = t
    · subst hb
      rw [inAt_put_self e ht] at h
      exact Or.inr ⟨rfl, Or.inl (Option.some.inj h).symm⟩
    · rw [inAt_put_of_ne e hb] at h
      exact Or.inl h
  | some s₀ =>
    rw [hin] at h
    dsimp only at h
    split at h
    · exact Or.inl h
    by_cases hb : b = t
    · subst hb
      rw [inAt_put_self _ ht] at h
      exact Or.inr ⟨rfl, Or.inr ⟨s₀, rfl, (Option.some.inj h).symm⟩⟩
    · rw [inAt_put_of_ne _ hb] at h
      exact Or.inl h

theorem mem_queue_absorb {w : Worklist σ} {e : σ} (h : b ∈ (w.absorb t e).queue) :
    b ∈ w.queue ∨ b = t := by
  have hPut : ∀ s, b ∈ (w.put t s).queue → b ∈ w.queue ∨ b = t :=
    fun s hs => (mem_enq.mp hs).symm
  unfold absorb at h
  split at h
  · exact hPut _ h
  · split at h
    · exact Or.inl h
    · exact hPut _ h

/-- Push a list of edges in order. -/
def absorbAll (w : Worklist σ) (es : List (Nat × σ)) : Worklist σ :=
  es.foldl (fun w e => w.absorb e.1 e.2) w

theorem absorbAll_append (w : Worklist σ) (es fs : List (Nat × σ)) :
    w.absorbAll (es ++ fs) = (w.absorbAll es).absorbAll fs :=
  foldl_append

theorem absorbAll_spec {es : List (Nat × σ)} : ∀ {w : Worklist σ}, (∀ e ∈ es, e.1 < w.ins.length) →
      Descends w (w.absorbAll es) ∧ ∀ e ∈ es, Absorbs (w.absorbAll es) e.1 e.2 := by
  induction es with
  | nil =>
    intro w _
    exact ⟨Descends.refl w, fun e he => absurd he (not_mem_nil)⟩
  | cons e es ih =>
    intro w hes
    have he : e.1 < w.ins.length := hes e mem_cons_self
    have hd := absorb_descends e.2 he
    have htail : ∀ f ∈ es, f.1 < (w.absorb e.1 e.2).ins.length := fun f hf => by
      rw [hd.length_eq]
      exact hes f (mem_cons_of_mem e hf)
    obtain ⟨hdTail, habs⟩ := ih htail
    refine ⟨hd.trans hdTail, fun f hf => ?_⟩
    rcases mem_cons.mp hf with rfl | hf
    · exact (absorb_absorbs f.2 he).descend hdTail
    · exact habs f hf

theorem queued_absorb {w : Worklist σ} {e : σ} (ht : t < w.ins.length)
    (hq : ∀ b ∈ w.queue, ∃ s, w.inAt b = some s) :
    ∀ b ∈ (w.absorb t e).queue, ∃ s, (w.absorb t e).inAt b = some s := by
  intro b hb
  rcases mem_queue_absorb hb with hold | rfl
  · obtain ⟨s, hs⟩ := hq b hold
    obtain ⟨s', hs', _⟩ := (absorb_descends e ht).below b s hs
    exact ⟨s', hs'⟩
  · obtain ⟨s, hs, _⟩ := absorb_absorbs (w := w) e ht
    exact ⟨s, hs⟩

theorem queued_absorbAll {es : List (Nat × σ)} :
    ∀ {w : Worklist σ}, (∀ e ∈ es, e.1 < w.ins.length) → (∀ b ∈ w.queue, ∃ s, w.inAt b = some s) →
      ∀ b ∈ (w.absorbAll es).queue, ∃ s, (w.absorbAll es).inAt b = some s := by
  induction es with
  | nil => exact fun _ hq => hq
  | cons e es ih =>
    intro w hes hq
    have he := hes e mem_cons_self
    refine ih (fun f hf => ?_) (queued_absorb he hq)
    rw [(absorb_descends e.2 he).length_eq]
    exact hes f (mem_cons_of_mem e hf)

/-- A property of states that merging keeps holds of every state after the pushes, if it
holds of the states before and of what is pushed. -/
theorem forall_inAt_absorbAll {P : Nat → σ → Prop}
    (hInf : ∀ b s e, P b s → P b e → P b (s ⊓ e)) {es : List (Nat × σ)} :
    ∀ {w : Worklist σ}, (∀ e ∈ es, e.1 < w.ins.length) → (∀ e ∈ es, P e.1 e.2) →
      (∀ b s, w.inAt b = some s → P b s) → ∀ b s, (w.absorbAll es).inAt b = some s → P b s := by
  induction es with
  | nil => exact fun _ _ h => h
  | cons e es ih =>
    intro w hRange hPushed hOld
    have he := hRange e mem_cons_self
    refine ih (fun f hf => ?_) (fun f hf => hPushed f (mem_cons_of_mem e hf)) ?_
    · rw [(absorb_descends e.2 he).length_eq]
      exact hRange f (mem_cons_of_mem e hf)
    intro b s hs
    have hNew := hPushed e mem_cons_self
    rcases inAt_absorb he hs with hKept | ⟨rfl, rfl | ⟨s₀, hs₀, rfl⟩⟩
    · exact hOld b s hKept
    · exact hNew
    · exact hInf _ s₀ e.2 (hOld _ s₀ hs₀) hNew

/-- Every visited node that is not pending has all its edges absorbed. -/
def Settled (edges : Nat → σ → List (Nat × σ)) (w : Worklist σ) : Prop :=
  ∀ b s, w.inAt b = some s → b ∉ w.queue → ∀ e ∈ edges b s, Absorbs w e.1 e.2

/-- Taking a node off the queue, wherever it stands, and pushing its edges keeps the
invariant. -/
theorem Settled.visit {edges : Nat → σ → List (Nat × σ)} {w : Worklist σ} {q : List Nat} {s : σ}
    (hset : Settled edges w) (hq : ∀ c ∈ w.queue, c = b ∨ c ∈ q) (hs : w.inAt b = some s)
    (hrange : ∀ e ∈ edges b s, e.1 < w.ins.length) :
    Settled edges ((Worklist.mk w.ins q).absorbAll (edges b s)) := by
  obtain ⟨hd, habs⟩ := absorbAll_spec (w := Worklist.mk w.ins q) hrange
  intro c t ht hc e he
  obtain ⟨hcq, hin⟩ := hd.settled c hc
  by_cases hcb : c = b
  · -- The taken node kept its state, so the edges just pushed are its edges.
    subst hcb
    rw [hin] at ht
    have hst : s = t := Option.some.inj (hs.symm.trans ht)
    subst hst
    exact habs e he
  · have hcw : c ∉ w.queue := by
      intro hmem
      rcases hq c hmem with heq | hmem
      · exact hcb heq
      · exact hcq hmem
    obtain ⟨u, hu, hle⟩ := hset c t (by rw [← ht, hin]; rfl) hcw e he
    have habs' : Absorbs (Worklist.mk w.ins q) e.1 e.2 := ⟨u, hu, hle⟩
    exact habs'.descend hd

/-- The weight of the states still to be lowered, and the pending nodes. -/
def potential (weight : Option σ → Nat) (w : Worklist σ) : Nat :=
  (w.ins.map weight).sum + w.queue.length

theorem sum_map_set {α : Type*} (weight : α → Nat) {l : List α} {i : Nat} {x y : α}
    (h : l[i]? = some x) : ((l.set i y).map weight).sum + weight x =
      (l.map weight).sum + weight y := by
  induction l generalizing i with
  | nil => cases h
  | cons a l ih =>
    cases i with
    | zero =>
      cases h
      rw [set_cons_zero, map_cons, map_cons, sum_cons, sum_cons]
      omega
    | succ i =>
      have hTail := ih (by simpa using h)
      rw [set_cons_succ, map_cons, map_cons, sum_cons, sum_cons]
      omega

theorem length_enq_le (b : Nat) (q : List Nat) : (enq b q).length ≤ q.length + 1 := by
  unfold enq
  split
  · exact Nat.le_succ _
  · rw [length_append, length_singleton]

theorem potential_put_le {weight : Option σ → Nat} {w : Worklist σ} {s : σ} (hb : b < w.ins.length)
    (h : weight (some s) < weight (w.inAt b)) :
    (w.put b s).potential weight ≤ w.potential weight := by
  have hEntry : w.ins[b]? = some (w.inAt b) := by
    simp [inAt, getElem?_eq_getElem hb]
  have hSum := sum_map_set weight (y := some s) hEntry
  have hQueue := length_enq_le b w.queue
  show ((w.ins.set b (some s)).map weight).sum + (enq b w.queue).length ≤ _
  unfold potential
  omega

/-- Pushing an edge does not raise the potential when lower states weigh less and any
state weighs less than none. -/
theorem potential_absorb_le {weight : Option σ → Nat} (hNone : ∀ e, weight (some e) < weight none)
    (hSome : ∀ s e, s ⊓ e ≠ s → weight (some (s ⊓ e)) < weight (some s)) {w : Worklist σ} (e : σ)
    (ht : t < w.ins.length) : (w.absorb t e).potential weight ≤ w.potential weight := by
  unfold absorb
  cases hin : w.inAt t with
  | none => exact potential_put_le ht (by rw [hin]; exact hNone e)
  | some s =>
    dsimp only
    by_cases heq : s ⊓ e = s
    · rw [if_pos heq]
    · rw [if_neg heq]
      exact potential_put_le ht (by rw [hin]; exact hSome s e heq)

end Worklist

end B2Compiler.Lib
