import Mathlib.Data.List.TakeWhile
import Mathlib.Data.Set.Card
import B2Compiler.Lib.Fuel

/-!
# Saturating a sorted list

A set grows in an ascending list.  Each round walks the places the list had when the
round began and offers the successors of what it finds there; an offered element that is
new goes in at its place, so the elements behind it move while the walk goes on.  An
element moved past the end of the walk is met in the next round, for a round that put
something in is never the last.  A cap stops the growth at once.

`closureOf` is the set the growth aims at.  `Growing` is what every moment of a run
keeps, `Round` relates the moments of one round to its beginning, and `Saturated` is
what holds at the end.
-/

namespace B2Compiler.Lib.Saturation

open List

open Relation (ReflTransGen)

variable {α : Type} [LinearOrder α]

/-- The list, whether the current round put something in, whether the cap was passed,
and the number of rounds begun. -/
structure State (α : Type) where
  items : List α
  changed : Bool := true
  full : Bool := false
  rounds : Nat := 0
  deriving DecidableEq, Repr

/-- Put an element in at its place, unless it is there.  The place is the end of the
prefix that is less. -/
def offer (cap : Nat) (s : State α) (t : α) : State α :=
  if s.full then s
  else
    let before := s.items.takeWhile fun a => a < t
    let rest := s.items.dropWhile fun a => a < t
    if rest.head? = some t then s
    else
      { s with
        items := before ++ t :: rest
        changed := true
        full := decide (cap < (before ++ t :: rest).length) }

/-- Offer the successors of the element at a place. -/
def visit (next : α → List α) (cap : Nat) (s : State α) (i : Nat) : State α :=
  match s.items[i]? with
  | none => s
  | some a => (next a).foldl (offer cap) s

/-- One walk over the places of the list as it is now. -/
def round (next : α → List α) (cap : Nat) (s : State α) : State α :=
  (range s.items.length).foldl (visit next cap) { s with changed := false, rounds := s.rounds + 1 }

/-- Rounds until nothing changes or the cap is passed. -/
def saturate (next : α → List α) (cap fuel : Nat) (s : State α) : Option (State α) :=
  Fuel.whileLoop (fun s => s.changed && !s.full) (fun _ s => some (round next cap s)) fuel s

/-- What the seeds lead to. -/
def closureOf (next : α → List α) (seeds : List α) : Set α :=
  {b | ∃ a ∈ seeds, ReflTransGen (fun a b => b ∈ next a) a b}

/-- The sets that contain the seeds and the successors of their members. -/
def closedSets (next : α → List α) (seeds : List α) : Set (Set α) :=
  {S | (∀ a ∈ seeds, a ∈ S) ∧ ∀ a ∈ S, ∀ b ∈ next a, b ∈ S}

section Closure

omit [LinearOrder α]

variable {next : α → List α} {seeds : List α}

theorem seed_mem_closureOf {a : α} (h : a ∈ seeds) : a ∈ closureOf next seeds :=
  ⟨a, h, ReflTransGen.refl⟩

theorem next_mem_closureOf {a b : α} (ha : a ∈ closureOf next seeds) (hb : b ∈ next a) :
    b ∈ closureOf next seeds := by
  obtain ⟨r, hr, hPath⟩ := ha
  exact ⟨r, hr, hPath.tail hb⟩

theorem closureOf_subset {S : Set α} (hS : S ∈ closedSets next seeds) :
    closureOf next seeds ⊆ S := by
  rintro b ⟨a, ha, hPath⟩
  induction hPath with
  | refl => exact hS.1 a ha
  | tail _ hEdge ih => exact hS.2 _ ih _ hEdge

end Closure

section Offer

variable {cap : Nat} {s : State α} {t : α}

/-- In an ascending list the element at the bound is `t` exactly when `t` is there. -/
theorem head_dropWhile_iff {l : List α} (h : l.Pairwise (· < ·)) :
    (l.dropWhile fun a => a < t).head? = some t ↔ t ∈ l := by
  induction l with
  | nil => simp
  | cons a l ih =>
    obtain ⟨hHead, hTail⟩ := pairwise_cons.mp h
    by_cases ha : a < t
    · have hNe : t ≠ a := fun hEq => lt_irrefl t (hEq ▸ ha)
      rw [dropWhile_cons_of_pos (by simpa using ha), ih hTail]
      simp [hNe]
    rw [dropWhile_cons_of_neg (by simpa using ha)]
    have hNot : t ∈ l → a = t := fun ht => absurd (hHead t ht) ha
    constructor
    · intro hEq
      simp only [head?_cons, Option.some.injEq] at hEq
      exact hEq ▸ mem_cons_self
    · intro ht
      rcases mem_cons.mp ht with hEq | ht
      · simp [hEq]
      · simp [hNot ht]

/-- Everything before the place is less, everything from it on greater. -/
theorem pairwise_place {l : List α} (h : l.Pairwise (· < ·)) (ht : t ∉ l) :
    ((l.takeWhile fun a => a < t) ++ t :: l.dropWhile fun a => a < t).Pairwise (· < ·) := by
  have hSplit := takeWhile_append_dropWhile (p := fun a => decide (a < t)) (l := l)
  have hSorted := h
  rw [← hSplit] at hSorted
  obtain ⟨hBefore, hAfter, hCross⟩ := pairwise_append.mp hSorted
  have hGreater : ∀ b ∈ l.dropWhile fun a => a < t, t < b := by
    intro b hb
    have hNe : t ≠ b := fun hEq => ht (hEq ▸ dropWhile_subset _ hb)
    refine lt_of_le_of_ne ?_ hNe
    rcases hRest : l.dropWhile fun a => a < t with _ | ⟨c, rest⟩
    · rw [hRest] at hb
      cases hb
    have hNot := head?_dropWhile_not (fun a => decide (a < t)) l
    rw [hRest] at hNot hb hAfter
    have hc : t ≤ c := by simpa using hNot
    rcases mem_cons.mp hb with rfl | hb
    · exact hc
    · exact le_trans hc (le_of_lt ((pairwise_cons.mp hAfter).1 b hb))
  refine pairwise_append.mpr ⟨hBefore, pairwise_cons.mpr ⟨hGreater, hAfter⟩, ?_⟩
  intro a ha b hb
  have hat : a < t := by simpa using mem_takeWhile_imp ha
  rcases mem_cons.mp hb with rfl | hb
  · exact hat
  · exact hCross a ha b hb

/-- What an offer does: nothing, or it puts a new element in. -/
theorem offer_cases (h : s.items.Pairwise (· < ·)) (cap : Nat) (t : α) :
    (offer cap s t = s ∧ (s.full = true ∨ t ∈ s.items)) ∨
      (s.full = false ∧ t ∉ s.items ∧ (offer cap s t).changed = true ∧
        (offer cap s t).items.Pairwise (· < ·) ∧
        (∀ a, a ∈ (offer cap s t).items ↔ a = t ∨ a ∈ s.items) ∧
        (offer cap s t).items.length = s.items.length + 1 ∧
        (offer cap s t).full = decide (cap < s.items.length + 1)) := by
  by_cases hFull : s.full = true
  · left
    exact ⟨by simp [offer, hFull], Or.inl hFull⟩
  by_cases hMem : t ∈ s.items
  · left
    refine ⟨?_, Or.inr hMem⟩
    have hHead := (head_dropWhile_iff h).mpr hMem
    simp only [offer, hFull, hHead, if_true]
    rfl
  · right
    have hHead : (s.items.dropWhile fun a => a < t).head? ≠ some t :=
      fun hEq => hMem ((head_dropWhile_iff h).mp hEq)
    have hSplit := takeWhile_append_dropWhile (p := fun a => decide (a < t)) (l := s.items)
    have hOffer : offer cap s t =
        { s with
          items := (s.items.takeWhile fun a => a < t) ++ t :: s.items.dropWhile fun a => a < t
          changed := true
          full := decide (cap < ((s.items.takeWhile fun a => a < t) ++
            t :: s.items.dropWhile fun a => a < t).length) } := by
      simp only [offer, hFull, hHead, if_false]
      rfl
    have hLength : ((s.items.takeWhile fun a => a < t) ++
        t :: s.items.dropWhile fun a => a < t).length = s.items.length + 1 := by
      have hSum := congrArg length hSplit
      simp only [length_append] at hSum
      simp only [length_append, length_cons]
      omega
    have hMemIff : ∀ a, a ∈ (s.items.takeWhile fun a => a < t) ++
        t :: s.items.dropWhile (fun a => a < t) ↔ a = t ∨ a ∈ s.items := by
      intro a
      conv => rhs; rw [← hSplit]
      simp only [mem_append, mem_cons]
      tauto
    rw [hOffer]
    refine ⟨by simpa using hFull, hMem, rfl, pairwise_place h hMem, hMemIff, hLength, ?_⟩
    simp only [hLength]

end Offer

/-! ## What every moment keeps -/

/-- The list is ascending and lies between the seeds and the closure; the cap is passed
at an insertion only, and as long as it is not, a list that grew respects it. -/
structure Growing (next : α → List α) (cap : Nat) (seeds : List α) (s : State α) : Prop where
  sorted : s.items.Pairwise (· < ·)
  kept : ∀ a ∈ seeds, a ∈ s.items
  sound : ∀ a ∈ s.items, a ∈ closureOf next seeds
  overflow : s.full = true → cap < s.items.length ∧ ∃ a ∈ s.items, a ∉ seeds
  within : s.full = false → s.items.length ≤ cap ∨ ∀ a ∈ s.items, a ∈ seeds

section Growing

variable {next : α → List α} {cap : Nat} {seeds : List α} {s : State α}

variable (h : Growing next cap seeds s)
include h

theorem Growing.offer {t : α} (ht : t ∈ closureOf next seeds) :
    Growing next cap seeds (offer cap s t) := by
  rcases offer_cases h.sorted cap t with
    ⟨hSame, -⟩ | ⟨-, hNew, -, hSorted, hItems, hLength, hFull⟩
  · rw [hSame]
    exact h
  · constructor
    case sorted =>
      exact hSorted
    case kept =>
      intro a ha
      exact (hItems a).mpr (Or.inr (h.kept a ha))
    case sound =>
      intro a ha
      rcases (hItems a).mp ha with rfl | ha
      · exact ht
      · exact h.sound a ha
    case overflow =>
      intro hOver
      rw [hFull, decide_eq_true_eq] at hOver
      refine ⟨by omega, t, (hItems t).mpr (Or.inl rfl), ?_⟩
      exact fun hSeed => hNew (h.kept t hSeed)
    case within =>
      intro hWithin
      rw [hFull, decide_eq_false_iff_not] at hWithin
      exact Or.inl (by omega)

theorem Growing.offers {l : List α} (hl : ∀ t ∈ l, t ∈ closureOf next seeds) :
    Growing next cap seeds (l.foldl (Saturation.offer cap) s) := by
  induction l generalizing s with
  | nil => exact h
  | cons t l ih =>
    rw [foldl_cons]
    exact ih (h.offer (hl t mem_cons_self)) fun u hu => hl u (mem_cons_of_mem _ hu)

theorem Growing.visit (i : Nat) : Growing next cap seeds (visit next cap s i) := by
  rw [Saturation.visit]
  rcases hGet : s.items[i]? with _ | a
  · exact h
  · have ha := h.sound a (mem_of_getElem? hGet)
    exact h.offers fun t ht => next_mem_closureOf ha ht

theorem Growing.visits (l : List Nat) :
    Growing next cap seeds (l.foldl (Saturation.visit next cap) s) := by
  induction l generalizing s with
  | nil => exact h
  | cons i l ih =>
    rw [foldl_cons]
    exact ih (h.visit i)

theorem Growing.round : Growing next cap seeds (round next cap s) := by
  have hStart : Growing next cap seeds { s with changed := false, rounds := s.rounds + 1 } :=
    ⟨h.sorted, h.kept, h.sound, h.overflow, h.within⟩
  exact hStart.visits _

end Growing

/-! ## One round against its beginning -/

/-- As long as nothing changed the list is the one the round began with, and a change
makes it longer. -/
structure Round (start : List α) (s : State α) : Prop where
  sorted : s.items.Pairwise (· < ·)
  same : s.changed = false → s.items = start
  longer : s.changed = true → start.length < s.items.length
  full : s.changed = false → s.full = false

section Round

variable {start : List α} {s : State α}

/-- An offer keeps the relation; one that leaves the round unchanged met an element the
list has. -/
theorem Round.offer (h : Round start s) (cap : Nat) (t : α) : Round start (offer cap s t) ∧
      ((offer cap s t).changed = false → s.changed = false ∧ t ∈ start) := by
  rcases offer_cases h.sorted cap t with
    ⟨hSame, hWhy⟩ | ⟨-, -, hChanged, hSorted, -, hLength, -⟩
  · rw [hSame]
    refine ⟨h, fun hc => ⟨hc, ?_⟩⟩
    rcases hWhy with hFull | hMem
    · rw [h.full hc] at hFull
      cases hFull
    · rw [← h.same hc]
      exact hMem
  · have hNever : ∀ {P : Prop}, (Saturation.offer cap s t).changed = false → P := by
      intro P hc
      rw [hChanged] at hc
      cases hc
    refine ⟨⟨hSorted, hNever, fun _ => ?_, hNever⟩, hNever⟩
    rcases hc : s.changed with _ | _
    · rw [hLength, h.same hc]
      exact Nat.lt_succ_self _
    · have hLonger := h.longer hc
      omega

theorem Round.offers (h : Round start s) (cap : Nat) (l : List α) :
    Round start (l.foldl (Saturation.offer cap) s) ∧
      ((l.foldl (Saturation.offer cap) s).changed = false →
        s.changed = false ∧ ∀ t ∈ l, t ∈ start) := by
  induction l generalizing s with
  | nil => exact ⟨h, fun hc => ⟨hc, by simp⟩⟩
  | cons t l ih =>
    rw [foldl_cons]
    obtain ⟨hOne, hOneSame⟩ := h.offer cap t
    obtain ⟨hAll, hAllSame⟩ := ih hOne
    refine ⟨hAll, fun hc => ?_⟩
    obtain ⟨hc₁, hRest⟩ := hAllSame hc
    obtain ⟨hc₀, hHead⟩ := hOneSame hc₁
    exact ⟨hc₀, forall_mem_cons.mpr ⟨hHead, hRest⟩⟩

theorem Round.visit (h : Round start s) (next : α → List α) (cap : Nat) (i : Nat) :
    Round start (visit next cap s i) ∧ ((visit next cap s i).changed = false →
        s.changed = false ∧ ∀ a, start[i]? = some a → ∀ t ∈ next a, t ∈ start) := by
  rw [Saturation.visit]
  rcases hGet : s.items[i]? with _ | b
  · refine ⟨h, fun hc => ⟨hc, fun a ha => ?_⟩⟩
    rw [h.same hc, ha] at hGet
    cases hGet
  obtain ⟨hAll, hSame⟩ := h.offers cap (next b)
  refine ⟨hAll, fun hc => ?_⟩
  obtain ⟨hc₀, hNext⟩ := hSame hc
  refine ⟨hc₀, fun a ha => ?_⟩
  rw [h.same hc₀, ha] at hGet
  exact Option.some.inj hGet ▸ hNext

theorem Round.visits (h : Round start s) (next : α → List α) (cap : Nat) (l : List Nat) :
    Round start (l.foldl (Saturation.visit next cap) s) ∧
      ((l.foldl (Saturation.visit next cap) s).changed = false →
        s.changed = false ∧ ∀ i ∈ l, ∀ a, start[i]? = some a → ∀ t ∈ next a, t ∈ start) := by
  induction l generalizing s with
  | nil => exact ⟨h, fun hc => ⟨hc, by simp⟩⟩
  | cons i l ih =>
    rw [foldl_cons]
    obtain ⟨hOne, hOneSame⟩ := h.visit next cap i
    obtain ⟨hAll, hAllSame⟩ := ih hOne
    refine ⟨hAll, fun hc => ?_⟩
    obtain ⟨hc₁, hRest⟩ := hAllSame hc
    obtain ⟨hc₀, hHead⟩ := hOneSame hc₁
    exact ⟨hc₀, forall_mem_cons.mpr ⟨hHead, hRest⟩⟩

theorem round_cases (next : α → List α) (cap : Nat) (h : s.items.Pairwise (· < ·))
    (hFull : s.full = false) :
    ((round next cap s).changed = true ∧ s.items.length < (round next cap s).items.length) ∨
      ((round next cap s).changed = false ∧ (round next cap s).items = s.items ∧
        ∀ a ∈ s.items, ∀ t ∈ next a, t ∈ s.items) := by
  have hStart : Round s.items { s with changed := false, rounds := s.rounds + 1 } :=
    ⟨h, fun _ => rfl, fun hc => Bool.noConfusion hc, fun _ => hFull⟩
  obtain ⟨hEnd, hSame⟩ :=
    hStart.visits next cap (range s.items.length)
  rcases hc : (round next cap s).changed with _ | _
  · refine Or.inr ⟨rfl, hEnd.same hc, fun a ha => ?_⟩
    obtain ⟨i, hi⟩ := List.mem_iff_getElem?.mp ha
    have hLt : i < s.items.length := (List.getElem?_eq_some_iff.mp hi).1
    exact (hSame hc).2 i (mem_range.mpr hLt) a hi
  · exact Or.inl ⟨rfl, hEnd.longer hc⟩

end Round

/-- The end of a run: what it kept on the way, and a list the cap did not stop is closed. -/
structure Saturated (next : α → List α) (cap : Nat) (seeds : List α) (s : State α) : Prop
    extends Growing next cap seeds s where
  closed : s.full = false → ∀ a ∈ s.items, ∀ t ∈ next a, t ∈ s.items

section Run

variable {next : α → List α} {cap : Nat} {seeds : List α}

theorem ncard_items {l : List α} (h : l.Pairwise (· < ·)) : {a | a ∈ l}.ncard = l.length := by
  have hNodup : l.Nodup := h.imp ne_of_lt
  rw [← coe_toFinset, Set.ncard_coe_finset, toFinset_card_of_nodup hNodup]

/-- The run from ascending seeds ends: each round but the last makes the list longer, and
a finite closure bounds it. -/
theorem saturate_returns (hSeeds : seeds.Pairwise (· < ·)) (hFin : (closureOf next seeds).Finite)
    (cap : Nat) :
    ∃ r, Fuel.Returns (fun n => saturate next cap n { items := seeds }) r ∧
      Saturated next cap seeds r := by
  have hStart : Growing next cap seeds { items := seeds } :=
    ⟨hSeeds, fun _ ha => ha, fun _ ha => seed_mem_closureOf ha, fun hc => Bool.noConfusion hc,
      fun _ => Or.inr fun _ ha => ha⟩
  have hBound : ∀ s, Growing next cap seeds s → s.items.length ≤ (closureOf next seeds).ncard := by
    intro s hs
    rw [← ncard_items hs.sorted]
    exact Set.ncard_le_ncard hs.sound hFin
  -- the unchanged last round leaves the list closed
  let Inv (s : State α) : Prop := Growing next cap seeds s ∧
    (s.changed = false → ∀ a ∈ s.items, ∀ t ∈ next a, t ∈ s.items)
  let measure (s : State α) : Nat :=
    2 * ((closureOf next seeds).ncard - s.items.length) + (if s.changed then 1 else 0)
  obtain ⟨r, hr, ⟨hGrow, hClosed⟩, hEnd⟩ := Fuel.whileLoop_returns
    (fun s : State α => s.changed && !s.full) (fun _ s => some (round next cap s)) Inv measure
    (fun s => Fuel.steady_const _) (by
      rintro s ⟨hs, -⟩ hCond
      simp only [Bool.and_eq_true, Bool.not_eq_true'] at hCond
      refine ⟨round next cap s, ⟨0, rfl⟩, ⟨hs.round, ?_⟩, ?_⟩
      · rcases round_cases next cap hs.sorted hCond.2 with
          ⟨hc, -⟩ | ⟨-, hSame, hClosed⟩
        · intro hc'
          rw [hc] at hc'
          cases hc'
        · intro _
          rw [hSame]
          exact hClosed
      · have hTop := hBound _ hs.round
        rcases round_cases next cap hs.sorted hCond.2 with
          ⟨hc, hLonger⟩ | ⟨hc, hSame, -⟩
        · simp only [measure, hc, hCond.1, if_true]
          omega
        · simp only [measure, hc, hCond.1, hSame, if_true]
          exact Nat.lt_succ_self _)
    (show Inv { items := seeds } from ⟨hStart, fun hc => Bool.noConfusion hc⟩)
  refine ⟨r, hr, hGrow, fun hFull => hClosed ?_⟩
  simpa [hFull] using hEnd

/-- The list at the end, if the cap did not stop the run, is the closure. -/
theorem Saturated.items_eq {s : State α} (h : Saturated next cap seeds s)
    (hFull : s.full = false) : {a | a ∈ s.items} = closureOf next seeds :=
  Set.Subset.antisymm h.sound (closureOf_subset ⟨h.kept, h.closed hFull⟩)

theorem Saturated.length_eq {s : State α} (h : Saturated next cap seeds s)
    (hFull : s.full = false) : s.items.length = (closureOf next seeds).ncard := by
  rw [← h.items_eq hFull, ncard_items h.sorted]

end Run

end B2Compiler.Lib.Saturation
