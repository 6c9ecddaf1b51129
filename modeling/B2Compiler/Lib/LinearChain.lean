import Mathlib.Data.Set.Finite.Basic
import Mathlib.Order.WellFounded

/-!
# Linear chains of a relation

A finite set is one chain behind an entry when its elements can be listed such that the edges
into them are the steps along the list and no others.  That holds exactly when every element
has one predecessor, the entry or an element of the set, no two elements share one, and no
edges lead around a circle.
-/

namespace B2Compiler.Lib.LinearChain

open Relation List

variable {α : Type*} {S : α → α → Prop} {entry : α} {M : Finset α}

/-- The list runs through the set; the steps along it, the entry in front, are all the edges
into the set. -/
structure IsChainOf (S : α → α → Prop) (entry : α) (M : Finset α) (chain : List α) : Prop where
  nodup : chain.Nodup
  mem_iff : ∀ n, n ∈ chain ↔ n ∈ M
  links : ∀ v u, u ∈ M → (S v u ↔ ∃ i : Nat, (entry :: chain)[i]? = some v ∧ chain[i]? = some u)

/-- An edge inside the set. -/
def Inside (S : α → α → Prop) (M : Finset α) (a b : α) : Prop := a ∈ M ∧ b ∈ M ∧ S a b

/-- The set seen edge by edge. -/
structure Strung (S : α → α → Prop) (entry : α) (M : Finset α) : Prop where
  pred : ∀ u ∈ M, ∃ v, S v u ∧ (v = entry ∨ v ∈ M)
  unique : ∀ u ∈ M, ∀ v w, S v u → S w u → v = w
  alone : ∀ v, ∀ u ∈ M, ∀ w ∈ M, S v u → S v w → u = w
  acyclic : ∀ u, ¬TransGen (Inside S M) u u

theorem Strung.exists_head (h : Strung S entry M) (hNonempty : M.Nonempty) :
    ∃ u ∈ M, S entry u := by
  by_contra hNone
  have hTrans : IsTrans {n // n ∈ M} fun a b => TransGen (Inside S M) a.1 b.1 :=
    ⟨fun _ _ _ hab hbc => hab.trans hbc⟩
  have hIrrefl : Std.Irrefl fun a b : {n // n ∈ M} => TransGen (Inside S M) a.1 b.1 :=
    ⟨fun a hCycle => h.acyclic a.1 hCycle⟩
  have hWf := Finite.wellFounded_of_trans_of_irrefl
    fun a b : {n // n ∈ M} => TransGen (Inside S M) a.1 b.1
  obtain ⟨n, hn⟩ := hNonempty
  obtain ⟨⟨u, hu⟩, -, hMin⟩ := hWf.has_min Set.univ ⟨⟨n, hn⟩, trivial⟩
  -- the predecessor of a minimal element is outside
  obtain ⟨v, hv, hEntry | hMem⟩ := h.pred u hu
  · rw [hEntry] at hv
    exact hNone ⟨u, hu, hv⟩
  · exact hMin ⟨v, hMem⟩ trivial (.single ⟨hMem, hu, hv⟩)

/-- Behind its first element the set is strung again. -/
theorem Strung.erase [DecidableEq α] (h : Strung S entry M) {u : α} (hu : u ∈ M)
    (hHead : S entry u) : Strung S u (M.erase u) := by
  have hOld : ∀ {n}, n ∈ M.erase u → n ∈ M := fun hn => Finset.mem_of_mem_erase hn
  refine ⟨?_, ?_, ?_, ?_⟩
  · intro n hn
    obtain ⟨v, hv, hPlace⟩ := h.pred n (hOld hn)
    refine ⟨v, hv, ?_⟩
    by_cases hEq : v = u
    · exact .inl hEq
    · right
      rcases hPlace with hEntry | hMem
      · rw [hEntry] at hv
        exact absurd (h.alone entry n (hOld hn) u hu hv hHead) (Finset.ne_of_mem_erase hn)
      · exact Finset.mem_erase.mpr ⟨hEq, hMem⟩
  · exact fun n hn => h.unique n (hOld hn)
  · exact fun v n hn m hm => h.alone v n (hOld hn) m (hOld hm)
  · intro n hCycle
    apply h.acyclic n
    exact TransGen.mono (fun _ _ hab => ⟨hOld hab.1, hOld hab.2.1, hab.2.2⟩) _ _ hCycle

theorem Strung.exists_chain [DecidableEq α] (h : Strung S entry M) (hEntry : entry ∉ M) :
    ∃ chain, IsChainOf S entry M chain := by
  induction hCard : M.card generalizing M entry with
  | zero =>
    have hEmpty := Finset.card_eq_zero.mp hCard
    subst hEmpty
    refine ⟨[], nodup_nil, fun n => by simp, ?_⟩
    intro v u hu
    exact absurd hu (Finset.notMem_empty u)
  | succ k ih =>
    have hNonempty : M.Nonempty := Finset.card_pos.mp (by omega)
    obtain ⟨u, hu, hHead⟩ := h.exists_head hNonempty
    have hCard' : (M.erase u).card = k := by
      rw [Finset.card_erase_of_mem hu]
      omega
    obtain ⟨chain, hNodup, hMem, hLinks⟩ :=
      ih (h.erase hu hHead) (Finset.notMem_erase u M) hCard'
    have hFresh : u ∉ chain := by
      rw [hMem]
      exact Finset.notMem_erase u M
    refine ⟨u :: chain, nodup_cons.mpr ⟨hFresh, hNodup⟩, ?_, ?_⟩
    · intro n
      rw [mem_cons, hMem, Finset.mem_erase]
      by_cases hEq : n = u
      · simp [hEq, hu]
      · simp [hEq]
    · intro v w hw
      by_cases hEq : w = u
      · subst hEq
        constructor
        · intro hv
          have hSame := h.unique w hu v entry hv hHead
          subst hSame
          exact ⟨0, rfl, rfl⟩
        · rintro ⟨i, hv, hw'⟩
          cases i with
          | zero =>
            injection hv with hv
            rw [← hv]
            exact hHead
          | succ i =>
            have hLater : chain[i]? = some w := hw'
            exact absurd (mem_of_getElem? hLater) hFresh
      · have hErase : w ∈ M.erase u := Finset.mem_erase.mpr ⟨hEq, hw⟩
        rw [hLinks v w hErase]
        constructor
        · rintro ⟨i, hv, hw'⟩
          exact ⟨i + 1, hv, hw'⟩
        rintro ⟨i, hv, hw'⟩
        cases i with
        | zero =>
          injection hw' with hw'
          exact absurd hw'.symm hEq
        | succ i => exact ⟨i, hv, hw'⟩

section

variable {chain : List α}

variable (h : IsChainOf S entry M chain)
include h

theorem IsChainOf.index_eq {i j : Nat} {u : α}
    (hi : chain[i]? = some u) (hj : chain[j]? = some u) : i = j := by
  obtain ⟨hi, hi'⟩ := List.getElem?_eq_some_iff.mp hi
  obtain ⟨hj, hj'⟩ := List.getElem?_eq_some_iff.mp hj
  exact (List.Nodup.getElem_inj_iff h.nodup).mp (hi'.trans hj'.symm)

theorem IsChainOf.index_eq' (hEntry : entry ∉ M) {i j : Nat}
    {v : α} (hi : (entry :: chain)[i]? = some v) (hj : (entry :: chain)[j]? = some v) :
    i = j := by
  have hNodup : (entry :: chain).Nodup := by
    rw [nodup_cons, h.mem_iff]
    exact ⟨hEntry, h.nodup⟩
  obtain ⟨hi, hi'⟩ := List.getElem?_eq_some_iff.mp hi
  obtain ⟨hj, hj'⟩ := List.getElem?_eq_some_iff.mp hj
  exact (List.Nodup.getElem_inj_iff hNodup).mp (hi'.trans hj'.symm)

theorem IsChainOf.lt_of_transGen (hEntry : entry ∉ M) {a b : α}
    {i j : Nat} (hPath : TransGen (Inside S M) a b) (hi : chain[i]? = some a)
    (hj : chain[j]? = some b) : i < j := by
  have hStep : ∀ {a b : α} {i j : Nat}, Inside S M a b → chain[i]? = some a →
      chain[j]? = some b → i < j := by
    intro a b i j hab hi hj
    obtain ⟨k, hk, hk'⟩ := (h.links a b hab.2.1).mp hab.2.2
    have hjk := h.index_eq hj hk'
    cases k with
    | zero =>
      injection hk with hEq
      rw [hEq] at hEntry
      exact absurd hab.1 hEntry
    | succ k =>
      have hik := h.index_eq hi hk
      omega
  induction hPath generalizing j with
  | single hab => exact hStep hab hi hj
  | @tail b c _ hbc ih =>
    obtain ⟨k, hk⟩ := getElem?_of_mem ((h.mem_iff b).mpr hbc.1)
    exact Nat.lt_trans (ih hk) (hStep hbc hk hj)

/-- The last of the list is the element without an edge to an element. -/
theorem IsChainOf.getLast?_iff (hEntry : entry ∉ M) (v : α) :
    chain.getLast? = some v ↔ v ∈ M ∧ ∀ w ∈ M, ¬S v w := by
  rw [getLast?_eq_getElem?]
  constructor
  · intro hLast
    refine ⟨(h.mem_iff v).mp (mem_of_getElem? hLast), fun w hw hEdge => ?_⟩
    obtain ⟨i, hi, hi'⟩ := (h.links v w hw).mp hEdge
    have hPos := (List.getElem?_eq_some_iff.mp hLast).1
    have hSame : (entry :: chain)[chain.length - 1 + 1]? = some v := hLast
    have hEq := h.index_eq' hEntry hSame hi
    have hIn := (List.getElem?_eq_some_iff.mp hi').1
    omega
  · rintro ⟨hv, hNone⟩
    obtain ⟨i, hi⟩ := List.getElem?_of_mem ((h.mem_iff v).mpr hv)
    have hIn := (List.getElem?_eq_some_iff.mp hi).1
    by_cases hLast : i + 1 < chain.length
    · have hNext := getElem?_eq_getElem hLast
      have hw : chain[i + 1] ∈ M := (h.mem_iff _).mp (getElem_mem hLast)
      exact absurd ((h.links v _ hw).mpr ⟨i + 1, hi, hNext⟩) (hNone _ hw)
    · have hEq : chain.length - 1 = i := by omega
      rw [hEq]
      exact hi

theorem IsChainOf.strung (hEntry : entry ∉ M) : Strung S entry M := by
  refine ⟨?_, ?_, ?_, ?_⟩
  · intro u hu
    obtain ⟨i, hi⟩ := getElem?_of_mem ((h.mem_iff u).mpr hu)
    have hLt : i < (entry :: chain).length := by
      have hIn := (List.getElem?_eq_some_iff.mp hi).1
      rw [length_cons]
      omega
    have hRead := getElem?_eq_getElem hLt
    refine ⟨_, (h.links _ u hu).mpr ⟨i, hRead, hi⟩, ?_⟩
    rcases mem_cons.mp (getElem_mem hLt) with hIs | hMem
    · exact .inl hIs
    · exact .inr ((h.mem_iff _).mp hMem)
  · intro u hu v w hv hw
    obtain ⟨i, hi, hi'⟩ := (h.links v u hu).mp hv
    obtain ⟨j, hj, hj'⟩ := (h.links w u hu).mp hw
    rw [h.index_eq hi' hj', hj] at hi
    exact (Option.some.inj hi).symm
  · intro v u hu w hw hv hv'
    obtain ⟨i, hi, hi'⟩ := (h.links v u hu).mp hv
    obtain ⟨j, hj, hj'⟩ := (h.links v w hw).mp hv'
    rw [h.index_eq' hEntry hi hj, hj'] at hi'
    exact (Option.some.inj hi').symm
  · intro u hCycle
    have hMem : u ∈ M := by
      obtain ⟨b, hb, -⟩ := TransGen.head'_iff.mp hCycle
      exact hb.1
    obtain ⟨i, hi⟩ := getElem?_of_mem ((h.mem_iff u).mpr hMem)
    exact Nat.lt_irrefl i (h.lt_of_transGen hEntry hCycle hi hi)

end

end B2Compiler.Lib.LinearChain
