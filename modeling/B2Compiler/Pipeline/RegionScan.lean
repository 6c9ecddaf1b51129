import B2Compiler.Pipeline.RegionSafety

/-!
# When the region safety checks end

The walk over the inputs of a node counts with eight bits.  With at most 255 inputs it passes
each of them once.  With more it starts over after slot 255, and ends only when one of the
slots 0 to 255 holds a memory state outside the region that is not the entry.
-/

namespace B2Compiler.Pipeline

open Ir List Nat

variable {g : Store} {r : Region} {n : NodeId}

/-- The input at the slot makes check 5 answer that the region is unsafe. -/
def strayMemory (g : Store) (r : Region) (n : NodeId) (slot : Nat) : Bool :=
  externalMemory g r n slot && g.input n slot != r.entryMemory

/-- One of the slots the walk can come to is such an input. -/
def Answers (g : Store) (r : Region) (n : NodeId) : Prop :=
  ∃ slot < 256, slot < g.numInputs n ∧ strayMemory g r n slot = true

/-- More inputs than eight bits count. -/
def Long (g : Store) (n : NodeId) : Prop := 256 ≤ g.numInputs n

/-- What check 5 can have seen when it goes on. -/
def Seen (r : Region) (ext : NodeId) : Prop := ext = Ir.kInvalidNodeId ∨ ext = r.entryMemory

def seenAt (g : Store) (r : Region) (n : NodeId) (slot : Nat) (ext : NodeId) : NodeId :=
  if externalMemory g r n slot then r.entryMemory else ext

/-! ## One walk -/

theorem walkExternal_succ {ext : NodeId} (hSeen : Seen r ext) (fuel : Nat) (s : BitVec 8) :
    walkExternal g r n (fuel + 1) s ext =
      if s.toNat < g.numInputs n then
        if strayMemory g r n s.toNat then some .unsafeHere
        else walkExternal g r n fuel (s + 1) (seenAt g r n s.toNat ext)
      else some (.walked ext) := by
  rw [walkExternal, seenAt]
  by_cases hIn : s.toNat < g.numInputs n
  · rw [if_pos hIn, if_pos hIn]
    by_cases hExternal : externalMemory g r n s.toNat = true
    · rw [if_pos hExternal, if_pos hExternal]
      by_cases hEntry : g.input n s.toNat = r.entryMemory
      · have hNot : ¬(ext ≠ Ir.kInvalidNodeId ∧ ext ≠ r.entryMemory) := by
          rintro ⟨hValid, hOther⟩
          rcases hSeen with hBad | hBad
          · exact hValid hBad
          · exact hOther hBad
        have hCalm : strayMemory g r n s.toNat = false := by
          simp [strayMemory, hEntry]
        simp only [hEntry, ne_eq, not_true_eq_false, if_false, hCalm, Bool.false_eq_true]
        rw [if_neg hNot]
      · have hStray : strayMemory g r n s.toNat = true := by
          simp [strayMemory, hExternal, hEntry]
        rw [hStray]
        simp only [ne_eq, hEntry, not_false_eq_true, if_true]
    · rw [Bool.not_eq_true] at hExternal
      have hCalm : strayMemory g r n s.toNat = false := by
        simp [strayMemory, hExternal]
      rw [hExternal, hCalm]
      rfl
  · rw [if_neg hIn, if_neg hIn]

theorem Seen.next {ext : NodeId} (hSeen : Seen r ext) (slot : Nat) :
    Seen r (seenAt g r n slot ext) := by
  unfold seenAt
  split_ifs
  · exact .inr rfl
  · exact hSeen

variable {fuel : Nat}

/-- What a walk that comes to the last input has found. -/
theorem walkExternal_walked {s : BitVec 8} {ext ext' : NodeId} (hSeen : Seen r ext)
    (h : walkExternal g r n fuel s ext = some (.walked ext')) : Seen r ext' ∧ ¬Long g n ∧
      (∀ slot, s.toNat ≤ slot → slot < g.numInputs n → strayMemory g r n slot = false) ∧
      (ext' = ext ∨ (ext' = r.entryMemory ∧ ∃ slot < g.numInputs n,
        externalMemory g r n slot = true)) := by
  induction fuel generalizing s ext with
  | zero => cases h
  | succ fuel ih =>
    rw [walkExternal_succ hSeen] at h
    split_ifs at h with hIn hStray
    · cases h
    · obtain ⟨hSeen', hShort, hRest, hEnd⟩ := ih (hSeen.next s.toNat) h
      refine ⟨hSeen', hShort, ?_, ?_⟩
      · intro slot hLe hSlot
        rcases eq_or_lt_of_le hLe with hEq | hLt
        · rw [← hEq]
          exact Bool.eq_false_iff.mpr hStray
        · apply hRest slot _ hSlot
          have hNext : (s + 1).toNat = s.toNat + 1 := by
            unfold Long at hShort
            bv_omega
          omega
      · rcases hEnd with hSame | hFound
        · unfold seenAt at hSame
          by_cases hExternal : externalMemory g r n s.toNat = true
          · rw [if_pos hExternal] at hSame
            exact .inr ⟨hSame, s.toNat, hIn, hExternal⟩
          · rw [if_neg hExternal] at hSame
            exact .inl hSame
        · exact .inr hFound
    · injection h with h
      injection h with h
      subst h
      have hLt := s.isLt
      refine ⟨hSeen, ?_, ?_, .inl rfl⟩
      · unfold Long
        omega
      · intro slot hLe hSlot
        omega

theorem walkExternal_none {ext : NodeId} (hSeen : Seen r ext) (hLong : Long g n)
    (hQuiet : ¬Answers g r n) (fuel : Nat) (s : BitVec 8) :
    walkExternal g r n fuel s ext = none := by
  induction fuel generalizing s ext with
  | zero => rfl
  | succ fuel ih =>
    have hIn : s.toNat < g.numInputs n := lt_of_lt_of_le s.isLt hLong
    have hCalm : ¬(strayMemory g r n s.toNat = true) :=
      fun hStray => hQuiet ⟨s.toNat, s.isLt, hIn, hStray⟩
    rw [walkExternal_succ hSeen, if_pos hIn, if_neg hCalm]
    exact ih (hSeen.next s.toNat) (s + 1)

theorem walkExternal_ends (last : Nat) {s : BitVec 8} {ext : NodeId} (hSeen : Seen r ext)
    (hLast : last < 256) (hStop : g.numInputs n ≤ last ∨ strayMemory g r n last = true)
    (hLe : s.toNat ≤ last) (hFuel : last - s.toNat < fuel) :
    ∃ w, walkExternal g r n fuel s ext = some w := by
  induction fuel generalizing s ext with
  | zero => exact absurd hFuel (not_lt_zero _)
  | succ fuel ih =>
    rw [walkExternal_succ hSeen]
    split_ifs with hIn hStray
    · exact ⟨_, rfl⟩
    · have hLt : s.toNat < last := by
        rcases eq_or_lt_of_le hLe with hEq | hLt
        · rcases hStop with hEnd | hBad
          · omega
          · rw [← hEq] at hBad
            exact absurd hBad hStray
        · exact hLt
      have hNext : (s + 1).toNat = s.toNat + 1 := by bv_omega
      exact ih (hSeen.next s.toNat) (by omega) (by omega)
    · exact ⟨_, rfl⟩

theorem walkExternal_ends_of {ext : NodeId} (hSeen : Seen r ext)
    (h : ¬Long g n ∨ Answers g r n) : ∃ w, walkExternal g r n 256 0 ext = some w := by
  have hZero : (0 : BitVec 8).toNat = 0 := rfl
  rcases h with hShort | ⟨slot, hSlot, -, hStray⟩
  · unfold Long at hShort
    exact walkExternal_ends (g.numInputs n) hSeen (by omega) (.inl (le_refl _))
      (zero_le _) (by omega)
  · exact walkExternal_ends slot hSeen hSlot (.inr hStray) (zero_le _) (by omega)

/-- A node with too many inputs comes after a node that answers, or answers itself. -/
def Answered (g : Store) (r : Region) (ns : List NodeId) : Prop :=
  ∀ pre n post, ns = pre ++ n :: post → Long g n → ∃ m ∈ pre ++ [n], Answers g r m

theorem scanExternal_ends {ns : List NodeId} {ext : NodeId} (hSeen : Seen r ext)
    (h : Answered g r ns) : ∃ w, scanExternal g r 256 ns ext = some w := by
  induction ns generalizing ext with
  | nil => exact ⟨_, rfl⟩
  | cons n ns ih =>
    have hHead : ¬Long g n ∨ Answers g r n := by
      by_cases hLong : Long g n
      · obtain ⟨m, hMem, hAnswers⟩ := h [] n ns rfl hLong
        rw [mem_singleton.mp hMem] at hAnswers
        exact .inr hAnswers
      · exact .inl hLong
    obtain ⟨w, hWalk⟩ := walkExternal_ends_of hSeen hHead
    rw [scanExternal, hWalk]
    cases w with
    | unsafeHere => exact ⟨_, rfl⟩
    | walked ext' =>
      obtain ⟨hSeen', hShort, hCalm, -⟩ := walkExternal_walked hSeen hWalk
      apply ih hSeen'
      intro pre m post hEq hLong
      obtain ⟨k, hMem, hAnswers⟩ := h (n :: pre) m post (by rw [hEq]; rfl) hLong
      rcases mem_cons.mp hMem with hIs | hRest
      · rw [hIs] at hAnswers
        obtain ⟨slot, -, hSlot, hStray⟩ := hAnswers
        rw [hCalm slot (zero_le _) hSlot] at hStray
        cases hStray
      · exact ⟨k, hRest, hAnswers⟩

/-- A scan that comes to such a node before any answer never ends. -/
theorem scanExternal_none {pre post : List NodeId} {ext : NodeId} (hSeen : Seen r ext)
    (hLong : Long g n) (hQuiet : ∀ m ∈ pre ++ [n], ¬Answers g r m) (fuel : Nat) :
    scanExternal g r fuel (pre ++ n :: post) ext = none := by
  induction pre generalizing ext with
  | nil =>
    rw [nil_append, scanExternal, walkExternal_none hSeen hLong (hQuiet n (mem_singleton.mpr rfl))]
  | cons m pre ih =>
    rw [cons_append, scanExternal]
    rcases hWalk : walkExternal g r m fuel 0 ext with _ | w
    · rfl
    cases w with
    | unsafeHere =>
      exfalso
      -- the walk found a stray input
      have hStray : ∀ {fuel s ext}, Seen r ext →
          walkExternal g r m fuel s ext = some .unsafeHere → Answers g r m := by
        intro fuel
        induction fuel with
        | zero =>
          intro s ext _ hBad
          cases hBad
        | succ fuel ihFuel =>
          intro s ext hSeen hBad
          rw [walkExternal_succ hSeen] at hBad
          split_ifs at hBad with hIn hStray
          · exact ⟨s.toNat, s.isLt, hIn, hStray⟩
          · exact ihFuel (hSeen.next s.toNat) hBad
          · cases hBad
      exact hQuiet m mem_cons_self (hStray hSeen hWalk)
    | walked ext' =>
      exact ih (walkExternal_walked hSeen hWalk).1 fun k hk => hQuiet k (mem_cons_of_mem _ hk)

/-- What a scan that comes to its end has found. -/
theorem scanExternal_walked {ns : List NodeId} {ext ext' : NodeId} (hSeen : Seen r ext)
    (h : scanExternal g r fuel ns ext = some (.walked ext')) : Seen r ext' ∧ (∀ n ∈ ns, ¬Long g n ∧
      ∀ slot < g.numInputs n, strayMemory g r n slot = false) ∧
      (ext' = ext ∨ (ext' = r.entryMemory ∧
        ∃ n ∈ ns, ∃ slot < g.numInputs n, externalMemory g r n slot = true)) := by
  induction ns generalizing ext with
  | nil =>
    injection h with h
    injection h with h
    subst h
    exact ⟨hSeen, fun n hn => absurd hn not_mem_nil, .inl rfl⟩
  | cons n ns ih =>
    rw [scanExternal] at h
    rcases hWalk : walkExternal g r n fuel 0 ext with _ | w
    · rw [hWalk] at h
      cases h
    rw [hWalk] at h
    cases w with
    | unsafeHere => cases h
    | walked ext₁ =>
      obtain ⟨hSeen', hShort, hCalm, hFound⟩ := walkExternal_walked hSeen hWalk
      obtain ⟨hSeenEnd, hRest, hEnd⟩ := ih hSeen' h
      refine ⟨hSeenEnd, ?_, ?_⟩
      · intro m hm
        rcases mem_cons.mp hm with rfl | hm
        · exact ⟨hShort, fun slot hSlot => hCalm slot (zero_le _) hSlot⟩
        · exact hRest m hm
      · rcases hEnd with hSame | ⟨hEntry, m, hm, hSlot⟩
        · rcases hFound with hSame' | ⟨hEntry, hSlot⟩
          · exact .inl (hSame.trans hSame')
          · exact .inr ⟨hSame.trans hEntry, n, mem_cons_self, hSlot⟩
        · exact .inr ⟨hEntry, m, mem_cons_of_mem _ hm, hSlot⟩

theorem walkMemoryInputs_ends (s memInputs : BitVec 8) (hShort : ¬Long g n)
    (hLe : s.toNat ≤ g.numInputs n) (hFuel : g.numInputs n - s.toNat < fuel) :
    ∃ k, walkMemoryInputs g n fuel s memInputs = some k := by
  induction fuel generalizing s memInputs with
  | zero => exact absurd hFuel (not_lt_zero _)
  | succ fuel ih =>
    rw [walkMemoryInputs]
    by_cases hIn : s.toNat < g.numInputs n
    · rw [if_pos hIn]
      have hNext : (s + 1).toNat = s.toNat + 1 := by
        unfold Long at hShort
        bv_omega
      exact ih _ _ (by omega) (by omega)
    · rw [if_neg hIn]
      exact ⟨_, rfl⟩

theorem scanMemoryInputs_ends {ns : List NodeId} (hShort : ∀ n ∈ ns, ¬Long g n) :
    ∃ ok, scanMemoryInputs g 256 ns = some ok := by
  induction ns with
  | nil => exact ⟨_, rfl⟩
  | cons n ns ih =>
    have hHere := hShort n mem_cons_self
    have hZero : (0 : BitVec 8).toNat = 0 := rfl
    obtain ⟨k, hk⟩ := walkMemoryInputs_ends 0 0 hHere (zero_le _)
      (show g.numInputs n - 0 < 256 by unfold Long at hHere; omega)
    rw [scanMemoryInputs, hk]
    dsimp only
    split_ifs
    · exact ⟨_, rfl⟩
    · exact ih fun m hm => hShort m (mem_cons_of_mem _ hm)

end B2Compiler.Pipeline
