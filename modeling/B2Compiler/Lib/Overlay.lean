import Mathlib.Tactic.Common

/-!
# Writes into a buffer

A buffer is filled by a sequence of writes, each a run of cells at a position; a later
write wins over an earlier one.  A cell holds what the last write that covers it put
there, so to know a cell it is enough to know one covering write and that no later
one covers it.
-/

namespace B2Compiler.Lib.Overlay

open List

variable {β : Type*}

/-- A run of cells and where it goes. -/
structure Write (β : Type*) where
  pos : Nat
  data : List β
  deriving DecidableEq, Repr

namespace Write

def Covers (w : Write β) (q : Nat) : Prop := w.pos ≤ q ∧ q < w.pos + w.data.length

instance (w : Write β) (q : Nat) : Decidable (w.Covers q) := inferInstanceAs (Decidable (_ ∧ _))

end Write

/-- Put a run of cells into the buffer; cells past its end are dropped. -/
def store (buf : List β) (w : Write β) : List β :=
  buf.mapIdx fun q b => if w.Covers q then w.data.getD (q - w.pos) b else b

/-- Perform the writes in order. -/
def writeAll (buf : List β) (ws : List (Write β)) : List β := ws.foldl store buf

@[simp] theorem length_store (buf : List β) (w : Write β) : (store buf w).length = buf.length := by
  simp [store]

@[simp] theorem length_writeAll (buf : List β) (ws : List (Write β)) :
    (writeAll buf ws).length = buf.length := by
  induction ws generalizing buf with
  | nil => rfl
  | cons w ws ih =>
    show (writeAll (store buf w) ws).length = buf.length
    rw [ih, length_store]

variable {q : Nat}

theorem store_of_not_covers {buf : List β} {w : Write β} (h : ¬w.Covers q) :
    (store buf w)[q]? = buf[q]? := by
  rw [store, getElem?_mapIdx]
  simp [h]

theorem store_of_covers {buf : List β} {w : Write β} (hq : q < buf.length) (h : w.Covers q) :
    (store buf w)[q]? = w.data[q - w.pos]? := by
  rw [store, getElem?_mapIdx, getElem?_eq_getElem hq]
  have hlt : q - w.pos < w.data.length := by
    have := h.1
    have := h.2
    omega
  simp [h, hlt]

theorem writeAll_of_not_covers {buf : List β} {ws : List (Write β)} (h : ∀ w ∈ ws, ¬w.Covers q) :
    (writeAll buf ws)[q]? = buf[q]? := by
  induction ws generalizing buf with
  | nil => rfl
  | cons w ws ih =>
    show (writeAll (store buf w) ws)[q]? = buf[q]?
    rw [ih fun v hv => h v (mem_cons_of_mem w hv)]
    exact store_of_not_covers (h w mem_cons_self)

/-- **The last write wins.** -/
theorem writeAll_last {buf : List β} {before after : List (Write β)} {w : Write β}
    (hq : q < buf.length) (hw : w.Covers q) (hafter : ∀ v ∈ after, ¬v.Covers q) :
    (writeAll buf (before ++ w :: after))[q]? = w.data[q - w.pos]? := by
  rw [writeAll, foldl_append, foldl_cons]
  show (writeAll (store (writeAll buf before) w) after)[q]? = _
  rw [writeAll_of_not_covers hafter]
  exact store_of_covers (by rw [length_writeAll]; exact hq) hw

/-- Where all covering writes agree, their order does not matter. -/
theorem writeAll_agree {buf : List β} {ws : List (Write β)} {b : β} (hq : q < buf.length)
    (hagree : ∀ w ∈ ws, w.Covers q → w.data[q - w.pos]? = some b)
    (hb : buf[q]? = some b ∨ ∃ w ∈ ws, w.Covers q) : (writeAll buf ws)[q]? = some b := by
  induction ws generalizing buf with
  | nil =>
    rcases hb with hb | ⟨w, hw, _⟩
    · exact hb
    · cases hw
  | cons w ws ih =>
    have hlen : q < (store buf w).length := by
      rw [length_store]
      exact hq
    have htail : ∀ v ∈ ws, v.Covers q → v.data[q - v.pos]? = some b :=
      fun v hv => hagree v (mem_cons_of_mem w hv)
    show (writeAll (store buf w) ws)[q]? = some b
    by_cases hw : w.Covers q
    · refine ih hlen htail (Or.inl ?_)
      rw [store_of_covers hq hw]
      exact hagree w mem_cons_self hw
    rcases hb with hb | ⟨v, hv, hcov⟩
    · refine ih hlen htail (Or.inl ?_)
      rw [store_of_not_covers hw]
      exact hb
    · rcases mem_cons.mp hv with rfl | hv
      · exact absurd hcov hw
      · exact ih hlen htail (Or.inr ⟨v, hv, hcov⟩)

end B2Compiler.Lib.Overlay
