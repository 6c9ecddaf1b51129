import Mathlib.Order.Lattice

/-!
# The flat lattice of constants

`Flat α` puts the values of `α` side by side between a top (nothing known yet) and
a bottom (no single value).  Meets keep a value only when both sides agree on it, so
a chain that only descends has at most two strict steps; `rank` counts them.
-/

namespace B2Compiler.Lib

/-- Nothing known, one known value, or no single value. -/
inductive Flat (α : Type) where
  | top
  | const (c : α)
  | bot
  deriving DecidableEq, Repr, Inhabited

namespace Flat

variable {α : Type}

/-- Depth below the top. -/
def rank : Flat α → Nat
  | top => 0
  | const _ => 1
  | bot => 2

/-- The greatest lower bound. -/
def meet [DecidableEq α] : Flat α → Flat α → Flat α
  | top, b => b
  | a, top => a
  | const a, const b => if a = b then const a else bot
  | _, _ => bot

instance : LE (Flat α) where
  le a b := a = bot ∨ b = top ∨ a = b

theorem le_def {a b : Flat α} : a ≤ b ↔ a = bot ∨ b = top ∨ a = b := Iff.rfl

instance : PartialOrder (Flat α) where
  le_refl a := Or.inr (Or.inr rfl)
  le_trans a b c hab hbc := by
    rcases hab with rfl | rfl | rfl
    · exact Or.inl rfl
    · rcases hbc with h | h | h
      · cases h
      · exact Or.inr (Or.inl h)
      · exact Or.inr (Or.inl h.symm)
    · exact hbc
  le_antisymm a b hab hba := by
    rcases hab with rfl | rfl | rfl
    · rcases hba with h | h | h
      · exact h.symm
      · cases h
      · exact h.symm
    · rcases hba with h | h | h
      · cases h
      · exact h
      · exact h.symm
    · rfl

theorem bot_le (a : Flat α) : bot ≤ a := Or.inl rfl

theorem le_top (a : Flat α) : a ≤ top := Or.inr (Or.inl rfl)

@[simp] theorem le_bot {a : Flat α} : a ≤ bot ↔ a = bot := by
  simp [le_def]

@[simp] theorem top_le {a : Flat α} : top ≤ a ↔ a = top := by
  simp [le_def, eq_comm]

theorem const_le {a : Flat α} {c : α} : const c ≤ a ↔ a = top ∨ a = const c := by
  simp [le_def, eq_comm]

/-- Descending without gaining rank is standing still. -/
theorem eq_of_le_of_rank_le {a b : Flat α} (h : a ≤ b) (hRank : a.rank ≤ b.rank) : a = b := by
  rcases h with rfl | rfl | rfl
  · cases b <;> simp [rank] at hRank ⊢
  · cases a <;> simp [rank] at hRank ⊢
  · rfl

variable [DecidableEq α]

theorem meet_le_left (a b : Flat α) : meet a b ≤ a := by
  cases a <;> cases b <;> simp [meet, le_def]
  exact ne_or_eq _ _

theorem meet_le_right (a b : Flat α) : meet a b ≤ b := by
  cases a <;> cases b <;> simp [meet, le_def]
  split <;> simp_all

theorem le_meet {a b c : Flat α} (hb : a ≤ b) (hc : a ≤ c) : a ≤ meet b c := by
  rcases hb with rfl | rfl | rfl
  · exact bot_le _
  · exact hc
  · rcases hc with rfl | rfl | rfl
    · exact bot_le _
    all_goals cases a <;> simp [meet]

theorem meet_mono {a a' b b' : Flat α} (ha : a' ≤ a) (hb : b' ≤ b) : meet a' b' ≤ meet a b :=
  le_meet ((meet_le_left a' b').trans ha) ((meet_le_right a' b').trans hb)

/-- A value that survives a meet came from one of the two sides. -/
theorem eq_const_of_meet {a b : Flat α} {c : α} (h : meet a b = const c) :
    a = const c ∨ b = const c := by
  cases a with
  | top => exact Or.inr h
  | bot => cases b <;> simp [meet] at h
  | const x =>
    cases b with
    | top => exact Or.inl h
    | bot => simp [meet] at h
    | const y =>
      simp only [meet] at h
      split at h
      · exact Or.inl h
      · cases h

end Flat

end B2Compiler.Lib
