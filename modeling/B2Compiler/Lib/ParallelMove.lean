import Mathlib.Logic.Nontrivial.Basic
import Mathlib.Data.List.Pairwise

/-!
# Sequences of moves and parallel assignments

A list of moves `(destination, source)` between the locations of an environment
can be read as one simultaneous assignment, or executed one move after another.
`run_eq_parallel_iff` says when the two agree: exactly when no move reads the
destination of an earlier one, unless that earlier move copies a location to
itself.
-/

namespace B2Compiler.Lib.ParallelMove

open List Function

variable {α β : Type} [DecidableEq α]

/-- A move: destination, then source. -/
abbrev Move (α : Type) : Type := α × α

/-- Execute moves in order. -/
def run (moves : List (Move α)) (env : α → β) : α → β :=
  moves.foldl (fun e m => update e m.1 (e m.2)) env

@[simp] theorem run_nil (env : α → β) : run [] env = env := rfl

@[simp] theorem run_cons (m : Move α) (moves : List (Move α)) (env : α → β) :
    run (m :: moves) env = run moves (update env m.1 (env m.2)) := rfl

theorem run_append (front back : List (Move α)) (env : α → β) :
    run (front ++ back) env = run back (run front env) := foldl_append

/-- No location is the destination of two moves. -/
def Windmill (moves : List (Move α)) : Prop := moves.Pairwise fun m m' => m.1 ≠ m'.1

/-- Every destination ends up with the value its source had at the start. -/
def Parallel (moves : List (Move α)) (env env' : α → β) : Prop :=
  ∀ m ∈ moves, env' m.1 = env m.2

/-- A move reads an earlier destination only behind a self-move. -/
def Ordered (moves : List (Move α)) : Prop :=
  moves.Pairwise fun m m' => m'.2 = m.1 → m.2 = m.1

/-- A location that is no destination keeps its value. -/
theorem run_of_forall_ne (moves : List (Move α)) (env : α → β) (x : α)
    (h : ∀ m ∈ moves, m.1 ≠ x) : run moves env x = env x := by
  induction moves generalizing env with
  | nil => rfl
  | cons m moves ih =>
    rw [run_cons, ih _ fun k hk => h k (mem_cons_of_mem m hk),
      update_of_ne (h m mem_cons_self).symm]

theorem run_destination (front back : List (Move α)) (m : Move α) (env : α → β)
    (h : ∀ k ∈ back, k.1 ≠ m.1) :
    run (front ++ m :: back) env m.1 = run front env m.2 := by
  rw [run_append, run_cons, run_of_forall_ne back _ _ h, update_self]

theorem run_const (moves : List (Move α)) (b : β) : run moves (fun _ => b) = fun _ => b := by
  induction moves with
  | nil => rfl
  | cons m moves ih => rw [run_cons, update_eq_self, ih]

theorem parallel_run_of_ordered (moves : List (Move α)) (env : α → β)
    (hdst : Windmill moves) (hord : Ordered moves) : Parallel moves env (run moves env) := by
  induction moves generalizing env with
  | nil =>
    intro m hm
    cases hm
  | cons m moves ih =>
    obtain ⟨hne, hdst⟩ := pairwise_cons.mp hdst
    obtain ⟨hself, hord⟩ := pairwise_cons.mp hord
    intro k hk
    rcases mem_cons.mp hk with rfl | hk
    · rw [run_cons, run_of_forall_ne moves _ _ fun j hj => (hne j hj).symm, update_self]
    · rw [run_cons, ih _ hdst hord k hk]
      by_cases hread : k.2 = m.1
      · rw [hread, update_self, hself k hk hread]
      · rw [update_of_ne hread]

theorem ordered_of_parallel_run [Nontrivial β] (moves : List (Move α)) (hdst : Windmill moves)
    (h : ∀ env : α → β, Parallel moves env (run moves env)) : Ordered moves := by
  obtain ⟨b, c, hbc⟩ := exists_pair_ne β
  -- The induction runs over the suffixes; `h` speaks about the whole list.
  suffices hsuf : ∀ front back, moves = front ++ back → Ordered back from hsuf [] moves rfl
  intro front back
  induction back generalizing front with
  | nil =>
    intro _
    exact List.Pairwise.nil
  | cons m back ih =>
    intro hmoves
    refine pairwise_cons.mpr ⟨?_, ih (front ++ [m]) (by simp [hmoves])⟩
    intro k hk hread
    by_contra hne
    have hmem : m ∈ moves ∧ k ∈ moves := by
      rw [hmoves]
      exact ⟨by simp, by simp [hk]⟩
    obtain ⟨mid, tail, rfl⟩ := append_of_mem hk
    rw [hmoves] at hdst
    have hback := pairwise_cons.mp (pairwise_append.mp hdst).2.1
    have htail := pairwise_cons.mp (pairwise_append.mp hback.2).2.1
    -- Tell the source of the earlier move apart from its destination.
    let env : α → β := update (fun _ => b) m.2 c
    have hm : run front env m.2 = env m.2 := by
      have hpar := h env m hmem.1
      rwa [hmoves, run_destination front _ m env fun j hj => (hback.1 j hj).symm] at hpar
    have hk' : run (front ++ m :: mid) env k.2 = env k.2 := by
      have hpar := h env k hmem.2
      rwa [hmoves, ← cons_append, ← append_assoc,
        run_destination _ tail k env fun j hj => (htail.1 j hj).symm] at hpar
    rw [hread, run_destination front mid m env
      fun j hj => (hback.1 j (mem_append_left _ hj)).symm, hm] at hk'
    have hc : env m.2 = c := update_self ..
    have hb : env m.1 = b := update_of_ne (Ne.symm hne) ..
    rw [hc, hb] at hk'
    exact hbc hk'.symm

end B2Compiler.Lib.ParallelMove
