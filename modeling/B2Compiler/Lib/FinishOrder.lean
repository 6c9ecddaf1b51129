import Mathlib.Data.List.Nodup
import Mathlib.Logic.Relation

/-!
# Relations without cycles

A search that puts an element in front of its list when all the successors of the
element are in the list leaves a list in which successors stand behind.  Such a list is
closed under the relation, and without repetitions no element of it lies on a cycle.

Where no cycle is within reach, a recursion along the relation goes no deeper than there
are elements: that much fuel suffices.
-/

namespace B2Compiler.Lib.FinishOrder

open List

open Relation (ReflTransGen TransGen)

variable {α : Type} {next : α → α → Prop} {l : List α} {a b : α}

/-- The successors of each element stand behind it. -/
def Finished (next : α → α → Prop) : List α → Prop
  | [] => True
  | a :: l => (∀ b, next a b → b ∈ l) ∧ Finished next l

theorem Finished.closed (h : Finished next l) (ha : a ∈ l) (hab : next a b) : b ∈ l := by
  induction l with
  | nil => cases ha
  | cons c l ih =>
    rcases mem_cons.mp ha with rfl | ha
    · exact mem_cons_of_mem _ (h.1 b hab)
    · exact mem_cons_of_mem _ (ih h.2 ha)

/-- Whatever an element leads to is in the list. -/
theorem Finished.reaches (h : Finished next l) (ha : a ∈ l) (hab : ReflTransGen next a b) :
    b ∈ l := by
  induction hab with
  | refl => exact ha
  | tail _ hStep ih => exact h.closed ih hStep

theorem Finished.acyclic (h : Finished next l) (hNodup : l.Nodup) (ha : a ∈ l) :
    ¬ TransGen next a a := by
  induction l with
  | nil => cases ha
  | cons c l ih =>
    obtain ⟨hNew, hNodup⟩ := nodup_cons.mp hNodup
    rcases mem_cons.mp ha with rfl | ha
    · -- the cycle leaves into the rest of the list and cannot come back
      intro hCycle
      obtain ⟨b, hStep, hBack⟩ := TransGen.head'_iff.mp hCycle
      exact hNew (h.2.reaches (h.1 b hStep) hBack)
    · exact ih h.2 hNodup ha

section Fuel

variable {r : α → α → Prop} {P : Nat → α → Prop} {univ : List α}

/-- The elements passed on the way, `seen`, are not met again, so they are few. -/
theorem fuel_suffices_of_seen (hUniv : ∀ a b, r a b → a ∈ univ)
    (hStep : ∀ f a, (∀ b, r a b → P f b) → P (f + 1) a) {f : Nat} {a : α} (seen : List α)
    (hAcyclic : ∀ b, ReflTransGen r a b → ¬ TransGen r b b) (hNodup : seen.Nodup)
    (hSeen : seen ⊆ univ) (hNew : ∀ b, ReflTransGen r a b → b ∉ seen)
    (hFuel : univ.length ≤ f + seen.length) : P (f + 1) a := by
  induction f generalizing a seen with
  | zero =>
    refine hStep 0 a fun b hab => ?_
    have hMore : (a :: seen).length ≤ univ.length := by
      refine List.Nodup.length_le_of_subset ?_ ?_
      · exact nodup_cons.mpr ⟨hNew a ReflTransGen.refl, hNodup⟩
      · exact cons_subset.mpr ⟨hUniv a b hab, hSeen⟩
    rw [length_cons] at hMore
    omega
  | succ f ih =>
    refine hStep (f + 1) a fun b hab => ?_
    refine ih (a :: seen) (fun c hc => hAcyclic c (hc.head hab)) ?_ ?_ ?_ ?_
    · exact nodup_cons.mpr ⟨hNew a ReflTransGen.refl, hNodup⟩
    · exact cons_subset.mpr ⟨hUniv a b hab, hSeen⟩
    · intro c hc hMem
      rcases mem_cons.mp hMem with rfl | hMem
      · exact hAcyclic c ReflTransGen.refl (TransGen.head' hab hc)
      · exact hNew c (hc.head hab) hMem
    · rw [length_cons]
      omega

/-- What holds with one more unit of fuel where it holds of the successors, holds with one
unit for each element there is. -/
theorem fuel_suffices (hUniv : ∀ a b, r a b → a ∈ univ)
    (hStep : ∀ f a, (∀ b, r a b → P f b) → P (f + 1) a) {a : α}
    (hAcyclic : ∀ b, ReflTransGen r a b → ¬ TransGen r b b) : P (univ.length + 1) a :=
  fuel_suffices_of_seen hUniv hStep [] hAcyclic nodup_nil (nil_subset _)
    (fun _ _ => not_mem_nil) (Nat.le_add_right _ _)

end Fuel

end B2Compiler.Lib.FinishOrder
