import Mathlib.Data.List.Basic

/-!
# Write logs

A log of writes to named places, the newest first, and what the places hold after it.
Looking for the newest write to a place is the same as doing all the writes in order.
A dense table is what a sparse family of entries looks like when the places are numbers.
-/

namespace B2Compiler.WriteLog

open Function

variable {κ ν : Type*} [DecidableEq κ]

/-- What every place holds after the writes, the oldest of them done first. -/
def contents (log : List (κ × ν)) : κ → Option ν :=
  log.reverse.foldl (fun held w => update held w.1 (some w.2)) fun _ => none

@[simp] theorem contents_nil (k : κ) : contents ([] : List (κ × ν)) k = none := rfl

theorem contents_cons (w : κ × ν) (log : List (κ × ν)) :
    contents (w :: log) = update (contents log) w.1 (some w.2) := by
  simp [contents]

@[simp] theorem contents_cons_self (k : κ) (v : ν) (log : List (κ × ν)) :
    contents ((k, v) :: log) k = some v := by
  rw [contents_cons, update_self]

theorem contents_cons_of_ne {w : κ × ν} {log : List (κ × ν)} {k : κ} (h : w.1 ≠ k) :
    contents (w :: log) k = contents log k := by
  rw [contents_cons, update_of_ne (Ne.symm h)]

/-- A place that holds something was written to. -/
theorem mem_of_contents {log : List (κ × ν)} {k : κ} {v : ν} (h : contents log k = some v) :
    (k, v) ∈ log := by
  induction log with
  | nil =>
    rw [contents_nil] at h
    cases h
  | cons w log ih =>
    by_cases hk : w.1 = k
    · subst hk
      rw [contents_cons_self, Option.some_inj] at h
      subst h
      exact List.mem_cons_self
    · rw [contents_cons_of_ne hk] at h
      exact List.mem_cons_of_mem _ (ih h)

end B2Compiler.WriteLog
