import B2Compiler.Lib.Fuel
import Mathlib.Data.Finset.Card

/-!
# Marking searches

A search keeps a mark for each node and a stack of marked nodes whose neighbours have
not been looked at.  Nodes that are marked from the outset and not on the stack are walls:
their neighbours are never looked at.  The marked nodes at the end are the walls and what
is reached from the starts without entering a wall.
-/

namespace B2Compiler.Lib.Marking

open Relation List
open Lib.Fuel

variable {α : Type} [DecidableEq α]

/-- The marks, the pending nodes with the top first, and the work done. -/
structure State (α : Type) where
  marked : α → Bool
  stack : List α
  ticks : Nat

/-- Mark a node and put it on the stack, unless it is marked. -/
def mark (s : State α) (t : α) : State α :=
  if s.marked t then s
  else { s with marked := Function.update s.marked t true, stack := t :: s.stack }

/-- Take the top of the stack and mark its neighbours. -/
def turn (next : α → List α) (s : State α) : State α :=
  match s.stack with
  | [] => s
  | b :: rest => (next b).foldl mark { s with stack := rest, ticks := s.ticks + 1 }

/-- Take nodes off the stack until it is empty. -/
def search (next : α → List α) (n : Nat) (s : State α) : Option (State α) :=
  whileLoop (fun s => !s.stack.isEmpty) (fun _ s => some (turn next s)) n s

/-- The search from some starts past some walls. -/
def init (walls : α → Bool) (starts : List α) (ticks : Nat) : State α :=
  starts.foldl mark ⟨walls, [], ticks⟩

/-- A step that does not enter a wall. -/
def Past (next : α → List α) (walls : α → Bool) (a b : α) : Prop :=
  b ∈ next a ∧ walls b = false

def Reached (next : α → List α) (walls : α → Bool) (starts : List α) (b : α) : Prop :=
  ∃ a ∈ starts, walls a = false ∧ ReflTransGen (Past next walls) a b

theorem marked_mark (s : State α) (t b : α) :
    (mark s t).marked b = true ↔ s.marked b = true ∨ b = t := by
  unfold mark
  by_cases ht : s.marked t = true
  · rw [if_pos ht]
    constructor
    · exact Or.inl
    · rintro (h | rfl)
      · exact h
      · exact ht
  · rw [if_neg ht]
    dsimp only
    by_cases hb : b = t
    · subst hb
      simp
    · rw [Function.update_of_ne hb]
      simp [hb]

theorem mem_stack_mark {s : State α} {t b : α} :
    b ∈ (mark s t).stack ↔ b ∈ s.stack ∨ (b = t ∧ s.marked t = false) := by
  unfold mark
  by_cases ht : s.marked t = true
  · rw [if_pos ht]
    simp [ht]
  · rw [if_neg ht]
    have hFalse : s.marked t = false := by simpa using ht
    simp only [mem_cons, hFalse, and_true]
    exact or_comm

theorem marked_foldl (l : List α) (s : State α) (b : α) :
    (l.foldl mark s).marked b = true ↔ s.marked b = true ∨ b ∈ l := by
  induction l generalizing s with
  | nil => simp
  | cons t l ih => rw [foldl_cons, ih, marked_mark, mem_cons, or_assoc]

theorem mem_stack_foldl {l : List α} {s : State α} {b : α} :
    b ∈ (l.foldl mark s).stack ↔ b ∈ s.stack ∨ (b ∈ l ∧ s.marked b = false) := by
  induction l generalizing s with
  | nil => simp
  | cons t l ih =>
    rw [foldl_cons, ih, mem_stack_mark, mem_cons]
    have hMark := marked_mark s t b
    by_cases hb : b = t
    · subst hb
      cases h : s.marked b
      · simp
      · have h' : (mark s b).marked b = true := hMark.mpr (Or.inl h)
        simp [h']
    · have h' : (mark s t).marked b = s.marked b := by
        rw [Bool.eq_iff_iff, hMark]
        simp [hb]
      simp [hb, h']

theorem ticks_foldl (l : List α) (s : State α) : (l.foldl mark s).ticks = s.ticks := by
  induction l generalizing s with
  | nil => rfl
  | cons t l ih =>
    rw [foldl_cons, ih, mark]
    split <;> rfl

variable {next : α → List α} {walls : α → Bool} {starts : List α}

/-- Pending nodes are marked, what is marked is a wall or reached, and the neighbours of a
marked node that is neither a wall nor pending are marked. -/
structure Sound (next : α → List α) (walls : α → Bool) (starts : List α) (s : State α) :
    Prop where
  pending : ∀ b ∈ s.stack, s.marked b = true ∧ walls b = false
  wall : ∀ b, walls b = true → s.marked b = true
  start : ∀ b ∈ starts, s.marked b = true
  reached : ∀ b, s.marked b = true → walls b = true ∨ Reached next walls starts b
  closed : ∀ a, s.marked a = true → walls a = false → a ∉ s.stack → ∀ b ∈ next a, s.marked b = true

theorem sound_init (next : α → List α) (walls : α → Bool) (starts : List α) (ticks : Nat) :
    Sound next walls starts (init walls starts ticks) := by
  have hMarked := marked_foldl starts ⟨walls, [], ticks⟩
  have hStack := @mem_stack_foldl α _ starts ⟨walls, [], ticks⟩
  constructor
  case pending =>
    intro b hb
    rcases hStack.mp hb with h | ⟨hMem, hWall⟩
    · cases h
    · exact ⟨(hMarked b).mpr (Or.inr hMem), hWall⟩
  case wall =>
    exact fun b hb => (hMarked b).mpr (Or.inl hb)
  case start =>
    exact fun b hb => (hMarked b).mpr (Or.inr hb)
  case reached =>
    intro b hb
    cases hWall : walls b
    · rcases (hMarked b).mp hb with h | hMem
      · exact absurd (hWall.symm.trans h) Bool.false_ne_true
      · exact Or.inr ⟨b, hMem, hWall, .refl⟩
    · exact Or.inl rfl
  case closed =>
    intro a ha hWall hStack' b _
    rcases (hMarked a).mp ha with h | hMem
    · exact absurd (hWall.symm.trans h) Bool.false_ne_true
    · exact absurd (hStack.mpr (Or.inr ⟨hMem, hWall⟩)) hStack'

theorem Sound.turn {s : State α} (h : Sound next walls starts s) {b : α} {rest : List α}
    (hStack : s.stack = b :: rest) : Sound next walls starts (turn next s) := by
  have hTurn : Marking.turn next s =
      (next b).foldl mark { s with stack := rest, ticks := s.ticks + 1 } := by
    rw [Marking.turn, hStack]
  have hMarked (c : α) : (Marking.turn next s).marked c = true ↔
      s.marked c = true ∨ c ∈ next b := by
    rw [hTurn]
    exact marked_foldl (next b) _ c
  have hPending (c : α) : c ∈ (Marking.turn next s).stack ↔
      c ∈ rest ∨ (c ∈ next b ∧ s.marked c = false) := by
    rw [hTurn]
    exact mem_stack_foldl
  have hTop := h.pending b (by rw [hStack]; exact mem_cons_self)
  constructor
  case pending =>
    intro c hc
    rcases (hPending c).mp hc with hRest | ⟨hNext, hNew⟩
    · have hOld := h.pending c (by rw [hStack]; exact mem_cons_of_mem b hRest)
      exact ⟨(hMarked c).mpr (Or.inl hOld.1), hOld.2⟩
    · refine ⟨(hMarked c).mpr (Or.inr hNext), ?_⟩
      cases hWall : walls c
      · rfl
      · exact absurd (hNew.symm.trans (h.wall c hWall)) Bool.false_ne_true
  case wall =>
    exact fun c hc => (hMarked c).mpr (Or.inl (h.wall c hc))
  case start =>
    exact fun c hc => (hMarked c).mpr (Or.inl (h.start c hc))
  case reached =>
    intro c hc
    rcases (hMarked c).mp hc with hOld | hNext
    · exact h.reached c hOld
    · cases hWall : walls c
      · rcases h.reached b hTop.1 with hb | ⟨a, ha, hStart, hSteps⟩
        · exact absurd (hTop.2.symm.trans hb) Bool.false_ne_true
        · exact Or.inr ⟨a, ha, hStart, hSteps.tail ⟨hNext, hWall⟩⟩
      · exact Or.inl rfl
  case closed =>
    intro a ha hWall hDone c hc
    by_cases hab : a = b
    · subst hab
      exact (hMarked c).mpr (Or.inr hc)
    rcases (hMarked a).mp ha with hOld | hNext
    · by_cases hMem : a ∈ s.stack
      · rw [hStack] at hMem
        rcases mem_cons.mp hMem with hEq | hRest
        · exact absurd hEq hab
        · exact absurd ((hPending a).mpr (Or.inl hRest)) hDone
      · exact (hMarked c).mpr (Or.inl (h.closed a hOld hWall hMem c hc))
    · cases hNew : s.marked a
      · exact absurd ((hPending a).mpr (Or.inr ⟨hNext, hNew⟩)) hDone
      by_cases hMem : a ∈ s.stack
      · rw [hStack] at hMem
        rcases mem_cons.mp hMem with hEq | hRest
        · exact absurd hEq hab
        · exact absurd ((hPending a).mpr (Or.inl hRest)) hDone
      · exact (hMarked c).mpr (Or.inl (h.closed a hNew hWall hMem c hc))

theorem Sound.marked_iff {s : State α} (h : Sound next walls starts s) (hStack : s.stack = [])
    (b : α) : s.marked b = true ↔ walls b = true ∨ Reached next walls starts b := by
  constructor
  · exact h.reached b
  rintro (hWall | ⟨a, ha, hStart, hSteps⟩)
  · exact h.wall b hWall
  have hBoth : s.marked b = true ∧ walls b = false := by
    induction hSteps with
    | refl => exact ⟨h.start a ha, hStart⟩
    | tail _ hPast ih =>
      refine ⟨h.closed _ ih.1 ih.2 ?_ _ hPast.1, hPast.2⟩
      rw [hStack]
      exact not_mem_nil
  exact hBoth.1

/-! ## The search ends -/

/-- The nodes of the universe without a mark. -/
def unmarked (univ : Finset α) (s : State α) : Finset α :=
  univ.filter fun b => s.marked b = false

theorem unmarked_mark (univ : Finset α) (s : State α) (t : α) :
    unmarked univ (mark s t) = if s.marked t then unmarked univ s else
      (unmarked univ s).erase t := by
  by_cases ht : s.marked t = true
  · rw [if_pos ht, mark, if_pos ht]
  · rw [if_neg ht]
    ext b
    have hMark := marked_mark s t b
    simp only [unmarked, Finset.mem_filter, Finset.mem_erase, Bool.eq_false_iff, ne_eq, hMark]
    tauto

/-- Twice the nodes without a mark, and the pending nodes. -/
def weight (univ : Finset α) (s : State α) : Nat :=
  2 * (unmarked univ s).card + s.stack.length

theorem weight_mark_le {univ : Finset α} (s : State α) {t : α} (ht : t ∈ univ) :
    weight univ (mark s t) ≤ weight univ s := by
  unfold weight
  rw [unmarked_mark]
  by_cases hMarked : s.marked t = true
  · rw [if_pos hMarked, mark, if_pos hMarked]
  have hMem : t ∈ unmarked univ s :=
    Finset.mem_filter.mpr ⟨ht, by simpa using hMarked⟩
  have hCard := Finset.card_erase_of_mem hMem
  have hPos := Finset.card_pos.mpr ⟨t, hMem⟩
  rw [if_neg hMarked, mark, if_neg hMarked, hCard]
  show _ + (s.stack.length + 1) ≤ _
  omega

theorem weight_foldl_le {univ : Finset α} {l : List α} (s : State α) (h : ∀ t ∈ l, t ∈ univ) :
    weight univ (l.foldl mark s) ≤ weight univ s := by
  induction l generalizing s with
  | nil => exact Nat.le_refl _
  | cons t l ih =>
    have hHead := weight_mark_le s (h t mem_cons_self)
    have hTail := ih (mark s t) fun t' ht' => h t' (mem_cons_of_mem t ht')
    exact Nat.le_trans hTail hHead

theorem search_steady (next : α → List α) (s : State α) : Steady fun n => search next n s :=
  whileLoop_steady (fun s => steady_const (some (turn next s))) s

/-- A search in a finite universe comes to an end. -/
theorem search_returns (univ : Finset α) (hUniv : ∀ a, ∀ b ∈ next a, b ∈ univ)
    (s : State α) : ∃ r, Returns (fun n => search next n s) r := by
  obtain ⟨r, hr, -⟩ := whileLoop_returns (fun s : State α => !s.stack.isEmpty)
    (fun _ s => some (turn next s)) (fun _ => True) (weight univ)
    (fun s => steady_const (some (turn next s)))
    (fun s _ hCond => by
      refine ⟨turn next s, ⟨0, rfl⟩, trivial, ?_⟩
      cases hStack : s.stack with
      | nil =>
        rw [hStack] at hCond
        cases hCond
      | cons b rest =>
        have hLe := weight_foldl_le { s with stack := rest, ticks := s.ticks + 1 } (hUniv b)
        have hLt : weight univ { s with stack := rest, ticks := s.ticks + 1 } < weight univ s := by
          unfold weight unmarked
          rw [hStack]
          exact Nat.add_lt_add_left (Nat.lt_succ_self _) _
        rw [turn, hStack]
        exact Nat.lt_of_le_of_lt hLe hLt) (s := s) trivial
  exact ⟨r, hr⟩

/-- The work of a search adds to what was done before. -/
theorem ticks_search {n ticks : Nat} {r : State α}
    (h : search next n (init walls starts ticks) = some r) : ticks ≤ r.ticks := by
  refine (whileLoop_inv (fun s => ticks ≤ s.ticks) (fun _ s s' hs _ hBody => ?_) h ?_).1
  · cases hBody
    unfold turn
    split
    · exact hs
    · rw [ticks_foldl]
      exact Nat.le_succ_of_le hs
  · rw [init, ticks_foldl]

theorem marked_search {n ticks : Nat} {r : State α}
    (h : search next n (init walls starts ticks) = some r) (b : α) :
    r.marked b = true ↔ walls b = true ∨ Reached next walls starts b := by
  obtain ⟨hSound, hEnd⟩ := whileLoop_inv (Sound next walls starts) (fun _ s s' hs hCond hBody => by
      cases hBody
      cases hStack : s.stack with
      | nil =>
        rw [hStack] at hCond
        cases hCond
      | cons b rest => exact hs.turn hStack) h (sound_init next walls starts ticks)
  exact hSound.marked_iff (by simpa using hEnd) b

end B2Compiler.Lib.Marking
