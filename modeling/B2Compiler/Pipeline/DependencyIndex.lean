import Mathlib.Data.List.Sort
import Mathlib.Data.List.Induction

/-!
# The dependency index

The runtime keeps, for every assumption, the nodes and regions compiled under it.
Associations live in one vector sorted by dependency, node and region.  The key of
the vector leaves the method out: a second method that records an association the
index already holds is dropped, and with the first method the association goes.
-/

namespace B2Compiler.Pipeline

open List

/-! ## Ids and entries -/

def kInvalidDependency : Nat := 0xFFFFFFFF

def kInvalidNodeId : Nat := 0xFFFFFFFF

def kInvalidRegion : Nat := 0xFFFFFFFF

/-- One association: a node and a region, and the method they were compiled for. -/
structure DependencyEntry where
  node : Nat := kInvalidNodeId
  region : Nat := kInvalidRegion
  method : Nat := 0
  deriving DecidableEq, Repr

/-- Nodes and regions whose assumption broke. -/
structure DirtySet where
  nodes : List Nat := []
  regions : List Nat := []
  deriving DecidableEq, Repr

/-- The order of the vector: dependency, then node, then region. -/
def entryLess (a b : Nat × DependencyEntry) : Bool :=
  if a.1 ≠ b.1 then a.1 < b.1
  else if a.2.node ≠ b.2.node then a.2.node < b.2.node
  else a.2.region < b.2.region

/-- The associations of all methods. -/
structure DependencyIndex where
  entries : List (Nat × DependencyEntry) := []
  deriving DecidableEq, Repr

def unique : List Nat → List Nat
  | a :: b :: rest => if a = b then unique (b :: rest) else a :: unique (b :: rest)
  | l => l

/-- Sort and drop repetitions. -/
def sortUnique (l : List Nat) : List Nat := unique (l.insertionSort (· ≤ ·))

namespace DependencyIndex

/-- Add an association.  The lower bound of a sorted range is the end of the prefix
that is less. -/
def record (idx : DependencyIndex) (dep node region method : Nat) : DependencyIndex :=
  if dep = kInvalidDependency then idx
  else if node = kInvalidNodeId ∧ region = kInvalidRegion then idx
  else
    let kv : Nat × DependencyEntry := (dep, ⟨node, region, method⟩)
    let before := idx.entries.takeWhile fun e => entryLess e kv
    let rest := idx.entries.dropWhile fun e => entryLess e kv
    match rest with
    | e :: _ =>
      -- already recorded, whatever the method
      if e.1 = dep ∧ e.2.node = node ∧ e.2.region = region then idx
      else ⟨before ++ kv :: rest⟩
    | [] => ⟨before ++ [kv]⟩

/-- The nodes and regions recorded for a dependency. -/
def invalidate (idx : DependencyIndex) (dep : Nat) : DirtySet :=
  if dep = kInvalidDependency then {}
  else
    let range := (idx.entries.dropWhile fun e => e.1 < dep).takeWhile fun e => !(dep < e.1)
    { nodes := sortUnique
        ((range.map fun e => e.2.node).filter fun n => n ≠ kInvalidNodeId)
      regions := sortUnique ((range.map fun e => e.2.region).filter fun r => r ≠ kInvalidRegion) }

/-- Remove the associations of a method. -/
def retireMethod (idx : DependencyIndex) (m : Nat) : DependencyIndex :=
  ⟨idx.entries.filter fun e => e.2.method ≠ m⟩

end DependencyIndex

/-! ## Runs -/

/-- A call of the interface that changes the index. -/
inductive Call where
  | record (dep node region method : Nat)
  | retireMethod (method : Nat)
  deriving DecidableEq, Repr

def DependencyIndex.step (idx : DependencyIndex) : Call → DependencyIndex
  | .record dep node region method => idx.record dep node region method
  | .retireMethod m => idx.retireMethod m

/-- The index after a sequence of calls. -/
def run (calls : List Call) : DependencyIndex := calls.foldl DependencyIndex.step {}

/-- Some call recorded the association, and no later one retired its method.  A call
with the invalid dependency registers nothing. -/
def Live (calls : List Call) (dep node region m : Nat) : Prop :=
  dep ≠ kInvalidDependency ∧ ∃ before after, calls = before ++ .record dep node region m :: after ∧
      .retireMethod m ∉ after

/-- What the index promises: the answer for a dependency is the ascending list of the
valid nodes and regions that live associations mention. -/
structure Exact (calls : List Call) (dep : Nat) : Prop where
  nodesSorted : ((run calls).invalidate dep).nodes.Pairwise (· < ·)
  regionsSorted : ((run calls).invalidate dep).regions.Pairwise (· < ·)
  nodes : ∀ n, n ∈ ((run calls).invalidate dep).nodes ↔
    n ≠ kInvalidNodeId ∧ ∃ region m, Live calls dep n region m
  regions : ∀ r, r ∈ ((run calls).invalidate dep).regions ↔
    r ≠ kInvalidRegion ∧ ∃ node m, Live calls dep node r m

/-- A method is retired only while no other live method has recorded an association
the index holds for it. -/
def Unshared (before : List Call) : Call → Prop
  | .record .. => True
  | .retireMethod m => ∀ dep node region m', m' ≠ m →
      (dep, ⟨node, region, m⟩) ∈ (run before).entries → ¬Live before dep node region m'

/-! ## Sorted ranges -/

section Sorted

theorem mem_unique {l : List Nat} {x : Nat} : x ∈ unique l ↔ x ∈ l := by
  fun_induction unique l with
  | case1 a rest ih =>
    rw [ih]
    simp
  | case2 a b rest hne ih => simp [ih]
  | case3 l => rfl

theorem pairwise_unique {l : List Nat} (h : l.Pairwise (· ≤ ·)) : (unique l).Pairwise (· < ·) := by
  fun_induction unique l with
  | case1 a rest ih => exact ih (pairwise_cons.mp h).2
  | case2 a b rest hne ih =>
    obtain ⟨hhead, htail⟩ := pairwise_cons.mp h
    refine pairwise_cons.mpr ⟨fun x hx => ?_, ih htail⟩
    have hab : a ≤ b := hhead b mem_cons_self
    have hbx : b ≤ x := by
      rcases mem_cons.mp (mem_unique.mp hx) with rfl | hmem
      · exact Nat.le_refl _
      · exact (pairwise_cons.mp htail).1 x hmem
    omega
  | case3 l hshort =>
    match l, hshort with
    | [], _ => exact List.Pairwise.nil
    | [a], _ => exact pairwise_singleton _ a
    | a :: b :: rest, hshort => exact absurd rfl (hshort a b rest)

theorem mem_sortUnique {l : List Nat} {x : Nat} : x ∈ sortUnique l ↔ x ∈ l := by
  rw [sortUnique, mem_unique, (perm_insertionSort (· ≤ ·) l).mem_iff]

theorem pairwise_sortUnique (l : List Nat) : (sortUnique l).Pairwise (· < ·) :=
  pairwise_unique (pairwise_insertionSort (· ≤ ·) l)

/-- On a partitioned range the bound of a search splits it as a filter does. -/
theorem takeWhile_eq_filter {α : Type} {p : α → Bool} {l : List α}
    (h : l.Pairwise fun a b => p b = true → p a = true) : l.takeWhile p = l.filter p := by
  induction l with
  | nil => rfl
  | cons a l ih =>
    obtain ⟨hhead, htail⟩ := pairwise_cons.mp h
    by_cases ha : p a = true
    · rw [takeWhile_cons_of_pos ha, filter_cons_of_pos ha, ih htail]
    · rw [takeWhile_cons_of_neg ha, filter_cons_of_neg ha]
      symm
      rw [filter_eq_nil_iff]
      exact fun b hb hpb => ha (hhead b hb hpb)

theorem dropWhile_eq_filter {α : Type} {p : α → Bool} {l : List α}
    (h : l.Pairwise fun a b => p b = true → p a = true) :
    l.dropWhile p = l.filter fun a => !p a := by
  induction l with
  | nil => rfl
  | cons a l ih =>
    obtain ⟨hhead, htail⟩ := pairwise_cons.mp h
    by_cases ha : p a = true
    · rw [dropWhile_cons_of_pos ha, filter_cons_of_neg (by simp [ha]), ih htail]
    rw [dropWhile_cons_of_neg ha, filter_cons_of_pos (by simp [ha])]
    congr 1
    symm
    rw [filter_eq_self]
    intro b hb
    simpa using fun hpb => ha (hhead b hb hpb)

end Sorted

/-! ## The vector -/

section Vector

variable {a b c : Nat × DependencyEntry} {idx : DependencyIndex} {dep node region m : Nat}

theorem entryLess_iff : entryLess a b = true ↔ a.1 < b.1 ∨ (a.1 = b.1 ∧ (a.2.node < b.2.node ∨
      (a.2.node = b.2.node ∧ a.2.region < b.2.region))) := by
  unfold entryLess
  split
  · rw [decide_eq_true_eq]
    omega
  · split
    all_goals
      rw [decide_eq_true_eq]
      omega

theorem entryLess_trans (hab : entryLess a b = true) (hbc : entryLess b c = true) :
    entryLess a c = true := by
  rw [entryLess_iff] at hab hbc ⊢
  omega

/-- The vector ascends strictly, so no key occurs twice. -/
def DependencyIndex.Sorted (idx : DependencyIndex) : Prop :=
  idx.entries.Pairwise fun a b => entryLess a b = true

/-- Does the index hold an association, for whichever method? -/
def DependencyIndex.Holds (idx : DependencyIndex) (dep node region : Nat) : Prop :=
  ∃ m, (dep, ⟨node, region, m⟩) ∈ idx.entries

variable (h : idx.Sorted)
include h

theorem partitioned (kv : Nat × DependencyEntry) :
    idx.entries.Pairwise fun a b => entryLess b kv = true → entryLess a kv = true :=
  h.imp fun hab hb => entryLess_trans hab hb

/-- A record either finds its key or is put between the lesser and the greater
entries. -/
theorem record_cases (hdep : dep ≠ kInvalidDependency)
    (hids : ¬(node = kInvalidNodeId ∧ region = kInvalidRegion)) :
    (idx.Holds dep node region ∧ idx.record dep node region m = idx) ∨ (¬idx.Holds dep node region ∧
        (idx.record dep node region m).entries =
          (idx.entries.filter fun e => entryLess e (dep, ⟨node, region, m⟩)) ++
            (dep, ⟨node, region, m⟩) ::
              idx.entries.filter fun e => !entryLess e (dep, ⟨node, region, m⟩)) := by
  have hpart := partitioned h (dep, ⟨node, region, m⟩)
  unfold DependencyIndex.record
  rw [if_neg hdep, if_neg hids]
  dsimp only
  rw [takeWhile_eq_filter hpart, dropWhile_eq_filter hpart]
  cases hrest : idx.entries.filter (fun e => !entryLess e (dep, ⟨node, region, m⟩)) with
  | nil =>
    right
    refine ⟨?_, rfl⟩
    rintro ⟨m', hmem⟩
    have hin : (dep, ⟨node, region, m'⟩) ∈
        idx.entries.filter (fun e => !entryLess e (dep, ⟨node, region, m⟩)) := by
      rw [mem_filter]
      exact ⟨hmem, by simp [entryLess]⟩
    rw [hrest] at hin
    cases hin
  | cons e rest =>
    have he : e ∈ idx.entries.filter (fun e => !entryLess e (dep, ⟨node, region, m⟩)) := by
      rw [hrest]
      exact mem_cons_self
    have hfsorted := h.filter fun e => !entryLess e (dep, ⟨node, region, m⟩)
    rw [hrest] at hfsorted
    by_cases hkey : e.1 = dep ∧ e.2.node = node ∧ e.2.region = region
    · left
      refine ⟨⟨e.2.method, ?_⟩, if_pos hkey⟩
      obtain ⟨rfl, rfl, rfl⟩ := hkey
      exact (mem_filter.mp he).1
    · right
      refine ⟨?_, by dsimp only; rw [if_neg hkey]⟩
      rintro ⟨m', hmem⟩
      have hin : (dep, ⟨node, region, m'⟩) ∈ e :: rest := by
        rw [← hrest, mem_filter]
        exact ⟨hmem, by simp [entryLess]⟩
      rcases mem_cons.mp hin with heq | hlater
      · exact hkey (by rw [← heq]; exact ⟨rfl, rfl, rfl⟩)
      -- the head is less than an entry with the key of the record
      have hless := (pairwise_cons.mp hfsorted).1 _ hlater
      have hnot := (mem_filter.mp he).2
      rw [entryLess_iff] at hless
      rw [Bool.not_eq_true', ← Bool.not_eq_true, entryLess_iff] at hnot
      exact hnot hless

theorem sorted_record : (idx.record dep node region m).Sorted := by
  by_cases hdep : dep = kInvalidDependency
  · rw [DependencyIndex.record, if_pos hdep]
    exact h
  by_cases hids : node = kInvalidNodeId ∧ region = kInvalidRegion
  · rw [DependencyIndex.record, if_neg hdep, if_pos hids]
    exact h
  rcases record_cases (m := m) h hdep hids with ⟨_, heq⟩ | ⟨hnew, heq⟩
  · rw [heq]
    exact h
  rw [DependencyIndex.Sorted, heq, pairwise_append]
  refine ⟨h.filter _, pairwise_cons.mpr ⟨?_, h.filter _⟩, ?_⟩
  · intro e he
    obtain ⟨hmem, hnot⟩ := mem_filter.mp he
    rw [Bool.not_eq_true', ← Bool.not_eq_true, entryLess_iff] at hnot
    rw [entryLess_iff]
    have hkey : ¬(e.1 = dep ∧ e.2.node = node ∧ e.2.region = region) := by
      rintro ⟨rfl, rfl, rfl⟩
      exact hnew ⟨e.2.method, hmem⟩
    dsimp only at hnot ⊢
    omega
  · intro e he e' he'
    have hlt := (mem_filter.mp he).2
    rcases mem_cons.mp he' with rfl | hlater
    · exact hlt
    · have hnot := (mem_filter.mp hlater).2
      rw [Bool.not_eq_true', ← Bool.not_eq_true, entryLess_iff] at hnot
      rw [entryLess_iff] at hlt ⊢
      dsimp only at hnot hlt
      omega

theorem sorted_retireMethod : (idx.retireMethod m).Sorted := h.filter _

theorem range_eq_filter :
    (idx.entries.dropWhile fun e => e.1 < dep).takeWhile (fun e => !(dep < e.1)) =
      idx.entries.filter fun e => e.1 = dep := by
  have hfst : idx.entries.Pairwise fun a b => a.1 ≤ b.1 := by
    refine h.imp fun hab => ?_
    rw [entryLess_iff] at hab
    omega
  rw [dropWhile_eq_filter, takeWhile_eq_filter, filter_filter]
  · apply filter_congr
    intro e _
    rw [Bool.eq_iff_iff]
    simp only [Bool.and_eq_true, Bool.not_eq_true', decide_eq_true_eq, decide_eq_false_iff_not]
    omega
  · refine (hfst.filter _).imp ?_
    intro a b hab
    simp only [Bool.not_eq_true', decide_eq_false_iff_not]
    omega
  · refine hfst.imp ?_
    intro a b hab
    simp only [decide_eq_true_eq]
    omega

theorem mem_invalidate_nodes (hdep : dep ≠ kInvalidDependency) {n : Nat} :
    n ∈ (idx.invalidate dep).nodes ↔ n ≠ kInvalidNodeId ∧ ∃ region, idx.Holds dep n region := by
  unfold DependencyIndex.invalidate
  rw [if_neg hdep]
  dsimp only
  rw [mem_sortUnique, range_eq_filter h, mem_filter, mem_map]
  simp only [mem_filter, decide_eq_true_eq, ne_eq, DependencyIndex.Holds]
  constructor
  · rintro ⟨⟨e, ⟨hmem, rfl⟩, rfl⟩, hn⟩
    exact ⟨hn, e.2.region, e.2.method, hmem⟩
  · rintro ⟨hn, region, m, hmem⟩
    exact ⟨⟨_, ⟨hmem, rfl⟩, rfl⟩, hn⟩

theorem mem_invalidate_regions (hdep : dep ≠ kInvalidDependency) {r : Nat} :
    r ∈ (idx.invalidate dep).regions ↔ r ≠ kInvalidRegion ∧ ∃ node, idx.Holds dep node r := by
  unfold DependencyIndex.invalidate
  rw [if_neg hdep]
  dsimp only
  rw [mem_sortUnique, range_eq_filter h, mem_filter, mem_map]
  simp only [mem_filter, decide_eq_true_eq, ne_eq, DependencyIndex.Holds]
  constructor
  · rintro ⟨⟨e, ⟨hmem, rfl⟩, rfl⟩, hr⟩
    exact ⟨hr, e.2.node, e.2.method, hmem⟩
  · rintro ⟨hr, node, m, hmem⟩
    exact ⟨⟨_, ⟨hmem, rfl⟩, rfl⟩, hr⟩

end Vector

section LiveCalls

variable {calls : List Call} {dep node region m : Nat}

theorem run_append_singleton (calls : List Call) (c : Call) :
    run (calls ++ [c]) = (run calls).step c := by
  rw [run, foldl_append]
  rfl

theorem not_live_nil : ¬Live [] dep node region m := by
  rintro ⟨_, before, after, heq, _⟩
  cases before <;> cases heq

/-- A record makes its own association live and keeps the others. -/
theorem live_append_record {dep' node' region' m' : Nat} :
    Live (calls ++ [.record dep' node' region' m']) dep node region m ↔
      Live calls dep node region m ∨
        (dep ≠ kInvalidDependency ∧ dep = dep' ∧ node = node' ∧ region = region' ∧ m = m') := by
  constructor
  · rintro ⟨hdep, before, after, heq, hno⟩
    rcases eq_nil_or_concat after with rfl | ⟨after, c, rfl⟩
    · obtain ⟨_, hlast⟩ := append_inj' heq rfl
      injection hlast with hrec
      injection hrec with h₁ h₂ h₃ h₄
      exact Or.inr ⟨hdep, h₁.symm, h₂.symm, h₃.symm, h₄.symm⟩
    · left
      rw [concat_eq_append, ← cons_append, ← append_assoc] at heq
      obtain ⟨hinit, _⟩ := append_inj' heq rfl
      refine ⟨hdep, before, after, hinit, fun hmem => hno ?_⟩
      rw [concat_eq_append]
      exact mem_append_left _ hmem
  · rintro (⟨hdep, before, after, rfl, hno⟩ | ⟨hdep, rfl, rfl, rfl, rfl⟩)
    · refine ⟨hdep, before, after ++ [.record dep' node' region' m'], by simp, ?_⟩
      simpa using hno
    · exact ⟨hdep, calls, [], rfl, not_mem_nil⟩

theorem live_append_retireMethod {m' : Nat} : Live (calls ++ [.retireMethod m']) dep node region m ↔
      Live calls dep node region m ∧ m ≠ m' := by
  constructor
  · rintro ⟨hdep, before, after, heq, hno⟩
    rcases eq_nil_or_concat after with rfl | ⟨after, c, rfl⟩
    · obtain ⟨_, hlast⟩ := append_inj' heq rfl
      cases hlast
    rw [concat_eq_append] at heq hno
    rw [← cons_append, ← append_assoc] at heq
    obtain ⟨hinit, hlast⟩ := append_inj' heq rfl
    injection hlast with hc
    subst hc
    refine ⟨⟨hdep, before, after, hinit, fun hmem => hno (mem_append_left _ hmem)⟩, ?_⟩
    rintro rfl
    exact hno (mem_append_right _ mem_cons_self)
  · rintro ⟨⟨hdep, before, after, rfl, hno⟩, hne⟩
    refine ⟨hdep, before, after ++ [.retireMethod m'], by simp, ?_⟩
    simpa [hno] using hne

/-! ## The invariant -/

/-- The index holds the associations that are live, each under a method for which it
is live. -/
structure Faithful (calls : List Call) : Prop where
  sorted : (run calls).Sorted
  owned : ∀ dep node region m, (dep, ⟨node, region, m⟩) ∈ (run calls).entries →
    Live calls dep node region m
  held : ∀ dep node region m, Live calls dep node region m →
    ¬(node = kInvalidNodeId ∧ region = kInvalidRegion) → (run calls).Holds dep node region

theorem faithful_nil : Faithful [] :=
  ⟨List.Pairwise.nil, fun _ _ _ _ h => absurd h not_mem_nil, fun _ _ _ _ h => absurd h not_live_nil⟩

theorem faithful_record_kept (h : Faithful calls)
    (hrun : run (calls ++ [.record dep node region m]) = run calls)
    (hheld : dep ≠ kInvalidDependency → ¬(node = kInvalidNodeId ∧ region = kInvalidRegion) →
      (run calls).Holds dep node region) : Faithful (calls ++ [.record dep node region m]) := by
  refine ⟨hrun ▸ h.sorted, ?_, ?_⟩
  · intro d n r o hmem
    rw [hrun] at hmem
    exact live_append_record.mpr (Or.inl (h.owned d n r o hmem))
  · intro d n r o hlive hids
    rw [hrun]
    rcases live_append_record.mp hlive with hold | ⟨hdep, rfl, rfl, rfl, rfl⟩
    · exact h.held d n r o hold hids
    · exact hheld hdep hids

theorem faithful_record_new (h : Faithful calls) (hdep : dep ≠ kInvalidDependency)
    (hentries : (run (calls ++ [.record dep node region m])).entries =
      ((run calls).entries.filter fun e => entryLess e (dep, ⟨node, region, m⟩)) ++
        (dep, ⟨node, region, m⟩) ::
          (run calls).entries.filter fun e => !entryLess e (dep, ⟨node, region, m⟩)) :
    Faithful (calls ++ [.record dep node region m]) := by
  have hmemIff : ∀ e, e ∈ (run (calls ++ [.record dep node region m])).entries ↔
      e ∈ (run calls).entries ∨ e = (dep, ⟨node, region, m⟩) := by
    intro e
    rw [hentries, mem_append, mem_cons, mem_filter, mem_filter]
    cases entryLess e (dep, ⟨node, region, m⟩) <;> simp [or_comm]
  refine ⟨?_, ?_, ?_⟩
  · rw [run_append_singleton]
    exact sorted_record h.sorted
  · intro d n r o hmem
    rcases (hmemIff _).mp hmem with hold | hnew
    · exact live_append_record.mpr (Or.inl (h.owned d n r o hold))
    · cases hnew
      exact live_append_record.mpr (Or.inr ⟨hdep, rfl, rfl, rfl, rfl⟩)
  · intro d n r o hlive hids
    rcases live_append_record.mp hlive with hold | ⟨_, rfl, rfl, rfl, rfl⟩
    · obtain ⟨o', ho'⟩ := h.held d n r o hold hids
      exact ⟨o', (hmemIff _).mpr (Or.inl ho')⟩
    · exact ⟨_, (hmemIff _).mpr (Or.inr rfl)⟩

theorem faithful_record (h : Faithful calls) (dep node region m : Nat) :
    Faithful (calls ++ [.record dep node region m]) := by
  have hrun : run (calls ++ [.record dep node region m]) =
      (run calls).record dep node region m := run_append_singleton _ _
  by_cases hdep : dep = kInvalidDependency
  · refine faithful_record_kept h (hrun.trans (if_pos hdep)) ?_
    intro hd
    exact absurd hdep hd
  by_cases hids : node = kInvalidNodeId ∧ region = kInvalidRegion
  · refine faithful_record_kept h (hrun.trans ?_) ?_
    · rw [DependencyIndex.record, if_neg hdep, if_pos hids]
    · intro _ hvalid
      exact absurd hids hvalid
  · rcases record_cases (m := m) h.sorted hdep hids with ⟨hholds, heq⟩ | ⟨_, heq⟩
    · exact faithful_record_kept h (hrun.trans heq) fun _ _ => hholds
    · exact faithful_record_new h hdep (by rw [hrun, heq])

theorem faithful_retireMethod (h : Faithful calls) (hun : Unshared calls (.retireMethod m)) :
    Faithful (calls ++ [.retireMethod m]) := by
  have hrun : run (calls ++ [.retireMethod m]) = (run calls).retireMethod m :=
    run_append_singleton _ _
  have hmemIff : ∀ e, e ∈ (run (calls ++ [.retireMethod m])).entries ↔
      e ∈ (run calls).entries ∧ e.2.method ≠ m := by
    intro e
    rw [hrun, DependencyIndex.retireMethod, mem_filter, decide_eq_true_eq]
  refine ⟨?_, ?_, ?_⟩
  · rw [hrun]
    exact sorted_retireMethod h.sorted
  · intro d n r o hmem
    obtain ⟨hold, hne⟩ := (hmemIff _).mp hmem
    exact live_append_retireMethod.mpr ⟨h.owned d n r o hold, hne⟩
  intro d n r o hlive hvalid
  obtain ⟨hold, hne⟩ := live_append_retireMethod.mp hlive
  obtain ⟨o', ho'⟩ := h.held d n r o hold hvalid
  refine ⟨o', (hmemIff _).mpr ⟨ho', ?_⟩⟩
  rintro rfl
  exact hun d n r o hne ho' hold

theorem faithful_run (calls : List Call)
    (h : ∀ before c after, calls = before ++ c :: after → Unshared before c) :
    Faithful calls := by
  induction calls using reverseRecOn with
  | nil => exact faithful_nil
  | append_singleton calls c ih =>
    have hprev : Faithful calls := by
      apply ih
      intro before c' after heq
      exact h before c' (after ++ [c]) (by rw [heq]; simp)
    cases c with
    | record dep node region m => exact faithful_record hprev dep node region m
    | retireMethod m => exact faithful_retireMethod hprev (h calls _ [] rfl)

theorem exact_of_faithful (h : Faithful calls) (dep : Nat) : Exact calls dep := by
  by_cases hdep : dep = kInvalidDependency
  · have hnone : (run calls).invalidate dep = {} := if_pos hdep
    have hdead : ∀ node region m, ¬ Live calls dep node region m := fun _ _ _ hlive =>
      absurd hdep hlive.1
    constructor <;> simp [hnone, hdead]
  · refine ⟨?_, ?_, ?_, ?_⟩
    · rw [DependencyIndex.invalidate, if_neg hdep]
      exact pairwise_sortUnique _
    · rw [DependencyIndex.invalidate, if_neg hdep]
      exact pairwise_sortUnique _
    · intro n
      rw [mem_invalidate_nodes h.sorted hdep]
      constructor
      · rintro ⟨hn, region, m, hmem⟩
        exact ⟨hn, region, m, h.owned _ _ _ _ hmem⟩
      · rintro ⟨hn, region, m, hlive⟩
        exact ⟨hn, region, h.held _ _ _ _ hlive fun hids => hn hids.1⟩
    · intro r
      rw [mem_invalidate_regions h.sorted hdep]
      constructor
      · rintro ⟨hr, node, m, hmem⟩
        exact ⟨hr, node, m, h.owned _ _ _ _ hmem⟩
      · rintro ⟨hr, node, m, hlive⟩
        exact ⟨hr, node, h.held _ _ _ _ hlive fun hids => hr hids.2⟩

end LiveCalls

/-- **The index law.**  In every run that retires no method while another live one
shares an association the index holds for it, each answer along the run is exact. -/
theorem invalidate_exact (calls : List Call)
    (h : ∀ before c after, calls = before ++ c :: after → Unshared before c)
    (before after : List Call) (hsplit : calls = before ++ after) (dep : Nat) :
    Exact before dep := by
  apply exact_of_faithful
  apply faithful_run
  intro earlier c later heq
  exact h earlier c (later ++ after) (by rw [hsplit, heq]; simp)

/-- Two methods with associations of their own; the first is retired. -/
def twoMethods : List Call := [.record 1 5 7 1, .record 1 6 7 2, .retireMethod 1]

/-- The only retirement comes last, and the one association of its method is live for
no other. -/
theorem twoMethods_exact : Exact twoMethods 1 := by
  refine invalidate_exact twoMethods ?_ twoMethods [] (by simp) 1
  intro before c after heq
  match before, heq with
  | [], heq | [_], heq =>
    cases heq
    trivial
  | [_, _], heq =>
    cases heq
    intro dep node region m' hne hmem hlive
    have hentries : (run [.record 1 5 7 1, .record 1 6 7 2]).entries =
        [(1, ⟨5, 7, 1⟩), (1, ⟨6, 7, 2⟩)] := by decide
    have hfirst : dep = 1 ∧ node = 5 ∧ region = 7 := by
      rw [hentries] at hmem
      simpa using hmem
    obtain ⟨rfl, rfl, rfl⟩ := hfirst
    have hlast : Live ([.record 1 5 7 1] ++ [.record 1 6 7 2]) 1 5 7 m' := hlive
    rcases live_append_record.mp hlast with hold | ⟨_, _, h5, _⟩
    · have honly : Live ([] ++ [.record 1 5 7 1]) 1 5 7 m' := hold
      rcases live_append_record.mp honly with hnil | ⟨_, _, _, _, rfl⟩
      · exact not_live_nil hnil
      · exact hne rfl
    · exact absurd h5 (by decide)
  | _ :: _ :: _ :: before, heq =>
    have hlen := congrArg length heq
    simp [twoMethods] at hlen

/-- Two methods record one association; the first is retired. -/
def sharedAssociation : List Call := [.record 1 5 7 1, .record 1 5 7 2, .retireMethod 1]

theorem not_invalidate_exact : ¬Exact sharedAssociation 1 := by
  intro h
  have hlive : Live sharedAssociation 1 5 7 2 :=
    ⟨by decide, [.record 1 5 7 1], [.retireMethod 1], rfl, by decide⟩
  have hmem := (h.nodes 5).mpr ⟨by decide, 7, 2, hlive⟩
  exact absurd hmem (by decide)

end B2Compiler.Pipeline
