import B2Compiler.Ir.Verifier
import B2Compiler.Lib.FinishOrder

/-!
# What the verifier accepts of the frame-state tables

Two graphs are hidden in the side tables: the callers of the descriptors, and the virtual
objects that hold virtual objects.  The third and fourth pass of the verifier look at
both.  `TablesOk` says in terms of reachability what they accept.
-/

namespace B2Compiler.Ir.Image

open Relation (ReflTransGen TransGen)
open Lib.FinishOrder List

variable (im : Image)

/-! ## The two hidden graphs -/

/-- Descriptor `a` is in range and names `b` as its caller. -/
def CallerOf (a b : BitVec 32) : Prop :=
  a ≠ kInvalidFrameState ∧ ∃ d, im.frameStates[a.toNat]? = some d ∧ d.caller = b

/-- Object `v` has object `f` as a field. -/
def Nested (v f : NodeId) : Prop := f ∈ im.virtualFields v

def LiveFrame (n : NodeId) : Prop :=
  n < im.nodeCount ∧ (im.node n).kind = .frameState ∧ im.isDead n = false

/-- A valid id of a live virtual object. -/
def LiveObject (v : NodeId) : Prop :=
  im.validId v = true ∧ (im.node v).kind = .virtualObjectState ∧ im.isDead v = false

/-- The caller chain of a descriptor: every id on it is in range and stands for a live
frame state, and none comes back. -/
structure ChainOk (start : BitVec 32) : Prop where
  inRange : ∀ a, ReflTransGen im.CallerOf start a → a ≠ kInvalidFrameState →
    a.toNat < im.frameStates.length
  live : ∀ a, ReflTransGen im.CallerOf start a → a ≠ kInvalidFrameState →
    im.descHasLiveFs a.toNat = true
  acyclic : ∀ a, ReflTransGen im.CallerOf start a → ¬ TransGen im.CallerOf a a

/-- What the passes over the side tables accept. -/
structure TablesOk : Prop where
  descriptor : ∀ n, im.LiveFrame n → (im.node n).payload.toNat < im.frameStates.length
  callers : ∀ n, im.LiveFrame n → im.ChainOk (im.node n).payload
  objects : ∀ n d, im.LiveFrame n → im.frameStates[(im.node n).payload.toNat]? = some d →
    ∀ v ∈ d.vobjs, ∀ w, ReflTransGen im.Nested v w → im.LiveObject w ∧ w ∈ d.vobjs
  acyclic : ∀ v, ¬ TransGen im.Nested v v
  materialized : ∀ m < im.nodeCount, (im.node m).kind = .materialize → im.isDead m = false →
    3 ≤ (im.node m).inputs.length → im.validId (im.input m 2) = true →
    (im.node (im.input m 2)).kind = .virtualObjectState → ∀ f, ¬ im.Nested (im.input m 2) f

/-- The diagnostics of these passes. -/
def tableDiags : List VerifyDiag :=
  (range im.nodeCount).flatMap im.checkFrameState ++ im.checkVobjCycles ++
    (range im.nodeCount).flatMap im.checkMaterialization

variable {im} {n : NodeId}

/-! ## Caller chains -/

section Callers

theorem callerOf_unique {a b c : BitVec 32} (hb : im.CallerOf a b) (hc : im.CallerOf a c) :
    b = c := by
  obtain ⟨-, d, hd, rfl⟩ := hb
  obtain ⟨-, e, he, rfl⟩ := hc
  rw [hd] at he
  rw [Option.some.inj he]

theorem not_callerOf_invalid {b : BitVec 32} : ¬ im.CallerOf kInvalidFrameState b :=
  fun h => h.1 rfl

theorem callerWalk_invalid (fuel : Nat) : im.callerWalk n fuel kInvalidFrameState = [] := by
  unfold callerWalk
  rw [if_pos rfl]

variable {cur : BitVec 32}

theorem callerWalk_step {fuel : Nat} (hCur : cur ≠ kInvalidFrameState) :
    im.callerWalk n fuel cur = [] ↔
      ∃ k next, fuel = k + 1 ∧ im.CallerOf cur next ∧ im.descHasLiveFs cur.toNat = true ∧
        im.callerWalk n k next = [] := by
  conv => lhs; unfold callerWalk
  rw [if_neg hCur]
  rcases fuel with _ | k
  · simp
  dsimp only
  rcases hGet : im.frameStates[cur.toNat]? with _ | d
  · simp only [cons_ne_nil, false_iff]
    rintro ⟨-, -, -, ⟨-, e, he, -⟩, -⟩
    rw [hGet] at he
    cases he
  · dsimp only
    rcases hLive : im.descHasLiveFs cur.toNat with _ | _
    · simp
    simp only [Bool.not_true, Bool.false_eq_true, if_false]
    constructor
    · intro hRest
      exact ⟨k, d.caller, rfl, ⟨hCur, d, hGet, rfl⟩, trivial, hRest⟩
    · rintro ⟨k', next, hk, hNext, -, hRest⟩
      rw [callerOf_unique ⟨hCur, d, hGet, rfl⟩ hNext, Nat.succ.inj hk]
      exact hRest

theorem chainOk_invalid : im.ChainOk kInvalidFrameState := by
  have hOnly : ∀ a, ReflTransGen im.CallerOf kInvalidFrameState a → a = kInvalidFrameState := by
    intro a ha
    rcases ReflTransGen.cases_head ha with hEq | ⟨b, hb, -⟩
    · exact hEq.symm
    · exact absurd hb not_callerOf_invalid
  refine ⟨fun a ha hne => absurd (hOnly a ha) hne, fun a ha hne => absurd (hOnly a ha) hne, ?_⟩
  intro a ha hCycle
  rw [hOnly a ha] at hCycle
  obtain ⟨b, hb, -⟩ := TransGen.head'_iff.mp hCycle
  exact not_callerOf_invalid hb

theorem ChainOk.cons {next : BitVec 32} (h : im.ChainOk next) (hStep : im.CallerOf cur next)
    (hLive : im.descHasLiveFs cur.toNat = true) : im.ChainOk cur := by
  have hCases : ∀ a, ReflTransGen im.CallerOf cur a →
      a = cur ∨ ReflTransGen im.CallerOf next a := by
    intro a ha
    rcases ReflTransGen.cases_head ha with hEq | ⟨b, hb, hRest⟩
    · exact Or.inl hEq.symm
    · rw [callerOf_unique hStep hb]
      exact Or.inr hRest
  constructor
  case inRange =>
    intro a ha hne
    rcases hCases a ha with rfl | ha
    · obtain ⟨-, d, hd, -⟩ := hStep
      exact (List.getElem?_eq_some_iff.mp hd).1
    · exact h.inRange a ha hne
  case live =>
    intro a ha hne
    rcases hCases a ha with rfl | ha
    · exact hLive
    · exact h.live a ha hne
  case acyclic =>
    intro a ha
    rcases hCases a ha with rfl | ha
    · -- a cycle through the first id passes through the second
      intro hCycle
      obtain ⟨b, hb, hBack⟩ := TransGen.head'_iff.mp hCycle
      rw [← callerOf_unique hStep hb] at hBack
      exact h.acyclic a hBack hCycle
    · exact h.acyclic a ha

/-- A walk that reports nothing came to the end of the chain. -/
theorem chainOk_of_callerWalk {fuel : Nat} (h : im.callerWalk n fuel cur = []) :
    im.ChainOk cur := by
  induction fuel generalizing cur with
  | zero =>
    by_cases hCur : cur = kInvalidFrameState
    · exact hCur ▸ chainOk_invalid
    · obtain ⟨k, next, hk, -⟩ := (callerWalk_step hCur).mp h
      cases hk
  | succ fuel ih =>
    by_cases hCur : cur = kInvalidFrameState
    · exact hCur ▸ chainOk_invalid
    · obtain ⟨k, next, hk, hStep, hLive, hRest⟩ := (callerWalk_step hCur).mp h
      rw [← Nat.succ.inj hk] at hRest
      exact (ih hRest).cons hStep hLive

/-- The step limit admits every chain without a cycle. -/
theorem callerWalk_of_chainOk {start : BitVec 32} (h : im.ChainOk start) :
    im.callerWalk n (im.frameStates.length + 2) start = [] := by
  let univ := (range im.frameStates.length).map (BitVec.ofNat 32)
  let P (fuel : Nat) (cur : BitVec 32) : Prop :=
    ReflTransGen im.CallerOf start cur → im.callerWalk n (fuel + 1) cur = []
  have hUniv : ∀ a b, im.CallerOf a b → a ∈ univ := by
    rintro a b ⟨-, d, hd, -⟩
    have hLt := (List.getElem?_eq_some_iff.mp hd).1
    exact mem_map.mpr ⟨a.toNat, mem_range.mpr hLt, by simp⟩
  have hStep : ∀ f a, (∀ b, im.CallerOf a b → P f b) → P (f + 1) a := by
    intro f cur hNext hReach
    by_cases hCur : cur = kInvalidFrameState
    · rw [hCur]
      exact callerWalk_invalid _
    · have hLt := h.inRange cur hReach hCur
      have hCaller : im.CallerOf cur (im.frameStates[cur.toNat]).caller :=
        ⟨hCur, _, getElem?_eq_getElem hLt, rfl⟩
      exact (callerWalk_step hCur).mpr
        ⟨f + 1, _, rfl, hCaller, h.live cur hReach hCur, hNext _ hCaller (hReach.tail hCaller)⟩
  have hEnd : P (univ.length + 1) start := fuel_suffices hUniv hStep h.acyclic
  have hLength : univ.length = im.frameStates.length := by
    rw [length_map, length_range]
  rw [hLength] at hEnd
  exact hEnd ReflTransGen.refl

theorem callerWalk_eq_nil : im.callerWalk n (im.frameStates.length + 2) cur = [] ↔ im.ChainOk cur :=
  ⟨chainOk_of_callerWalk, callerWalk_of_chainOk⟩

end Callers

/-! ## The search for a cycle among the virtual objects -/

section Cycles

/-- The ids a search has coloured name virtual objects, each once. -/
structure Colours.Tidy (im : Image) (c : Colours) : Prop where
  nodup : (c.gray ++ c.black).Nodup
  objects : ∀ v ∈ c.gray ++ c.black, v < im.nodeCount ∧ (im.node v).kind = .virtualObjectState

/-- One field, for any search of the fields. -/
def vobjVisit (search : NodeId → Colours → Colours × List VerifyDiag) (n : NodeId)
    (acc : Colours × List VerifyDiag) (f : NodeId) : Colours × List VerifyDiag :=
  if f ∈ acc.1.gray then
    (acc.1, acc.2 ++ [⟨n, s!"materialization graph cycle: vobj n{f} participates in a cycle"⟩])
  else if f ∈ acc.1.black then acc
  else
    let inner := search f acc.1
    (inner.1, acc.2 ++ inner.2)

theorem hasVobjCycle_succ (fuel : Nat) (n : NodeId) (c : Colours) : im.hasVobjCycle (fuel + 1) n c =
      let left := (im.virtualFields n).foldl (vobjVisit (im.hasVobjCycle fuel) n)
        ({ c with gray := n :: c.gray }, [])
      (⟨left.1.gray.erase n, n :: left.1.black⟩, left.2) := rfl

/-- What a finished search has done to the colours, given what it reported. -/
structure Searched (im : Image) (c : Colours) (c' : Colours) (ds : List VerifyDiag) : Prop where
  tidy : c'.Tidy im
  gray : c'.gray = c.gray
  black : ∀ v ∈ c.black, v ∈ c'.black
  finished : ds = [] → Finished im.Nested c.black → Finished im.Nested c'.black
  cycle : ds ≠ [] → ∃ v, TransGen im.Nested v v

variable {c : Colours}

theorem Searched.refl (h : c.Tidy im) : Searched im c c [] :=
  ⟨h, rfl, fun _ hv => hv, fun _ hFin => hFin, fun hds => absurd rfl hds⟩

theorem Searched.trans {c₁ c₂ : Colours} {ds₁ ds₂ : List VerifyDiag} (h₁ : Searched im c c₁ ds₁)
    (h₂ : Searched im c₁ c₂ ds₂) : Searched im c c₂ (ds₁ ++ ds₂) := by
  constructor
  case tidy =>
    exact h₂.tidy
  case gray =>
    rw [h₂.gray, h₁.gray]
  case black =>
    exact fun v hv => h₂.black v (h₁.black v hv)
  case finished =>
    intro hds hFin
    obtain ⟨hds₁, hds₂⟩ := append_eq_nil_iff.mp hds
    exact h₂.finished hds₂ (h₁.finished hds₁ hFin)
  case cycle =>
    intro hds
    by_cases hds₁ : ds₁ = []
    · refine h₂.cycle fun hds₂ => hds ?_
      rw [hds₁, hds₂]
      rfl
    · exact h₁.cycle hds₁

/-- An object a search may be started on: it is not coloured yet, the objects on the
current branch lead to it, and the fuel covers the objects that are left. -/
structure Startable (im : Image) (fuel : Nat) (n : NodeId) (c : Colours) : Prop where
  tidy : c.Tidy im
  object : n < im.nodeCount ∧ (im.node n).kind = .virtualObjectState
  white : n ∉ c.gray ++ c.black
  branch : ∀ v ∈ c.gray, ReflTransGen im.Nested v n
  fuel : im.nodeCount < fuel + (c.gray ++ c.black).length

/-- What a search owes: it ends with its object finished, and more fuel changes nothing. -/
def Meets (im : Image) (fuel : Nat) : Prop :=
  ∀ n c, Startable im fuel n c →
    Searched im c (im.hasVobjCycle fuel n c).1 (im.hasVobjCycle fuel n c).2 ∧
      n ∈ (im.hasVobjCycle fuel n c).1.black ∧
      ∀ k, im.nodeCount < k + (c.gray ++ c.black).length →
        im.hasVobjCycle k n c = im.hasVobjCycle fuel n c

theorem nested_object {v f : NodeId} (h : im.Nested v f) :
    im.validId f = true ∧ f < im.nodeCount ∧ (im.node f).kind = .virtualObjectState := by
  obtain ⟨-, hf⟩ := mem_filter.mp h
  obtain ⟨hValid, hKind⟩ := Bool.and_eq_true_iff.mp hf
  refine ⟨hValid, ?_, by simpa using hKind⟩
  exact of_decide_eq_true (Bool.and_eq_true_iff.mp hValid).2

theorem Colours.Tidy.length_le (h : c.Tidy im) : (c.gray ++ c.black).length ≤ im.nodeCount := by
  have hSub : c.gray ++ c.black ⊆ range im.nodeCount :=
    fun v hv => mem_range.mpr (h.objects v hv).1
  have hLen := h.nodup.length_le_of_subset hSub
  rwa [length_range] at hLen

theorem Searched.length_le {c' : Colours} {ds : List VerifyDiag} (hTidy : c.Tidy im)
    (h : Searched im c c' ds) : (c.gray ++ c.black).length ≤ (c'.gray ++ c'.black).length := by
  refine hTidy.nodup.length_le_of_subset fun v hv => ?_
  rw [h.gray]
  rcases mem_append.mp hv with hv | hv
  · exact mem_append_left _ hv
  · exact mem_append_right _ (h.black v hv)

/-- The fields of an object, one after the other. -/
theorem visit_fields {fuel : Nat} (hMeets : Meets im fuel) {n : NodeId} {l : List NodeId}
    (hl : ∀ f ∈ l, im.Nested n f) (acc : Colours × List VerifyDiag) (hTidy : acc.1.Tidy im)
    (hBranch : ∀ v ∈ acc.1.gray, ReflTransGen im.Nested v n)
    (hFuel : im.nodeCount < fuel + (acc.1.gray ++ acc.1.black).length) :
    ∃ ds, (l.foldl (vobjVisit (im.hasVobjCycle fuel) n) acc).2 = acc.2 ++ ds ∧
      Searched im acc.1 (l.foldl (vobjVisit (im.hasVobjCycle fuel) n) acc).1 ds ∧
      (ds = [] → ∀ f ∈ l, f ∈ (l.foldl (vobjVisit (im.hasVobjCycle fuel) n) acc).1.black) ∧
      ∀ k, im.nodeCount < k + (acc.1.gray ++ acc.1.black).length →
        l.foldl (vobjVisit (im.hasVobjCycle k) n) acc =
          l.foldl (vobjVisit (im.hasVobjCycle fuel) n) acc := by
  induction l generalizing acc with
  | nil => exact ⟨[], (append_nil _).symm, Searched.refl hTidy, by simp, fun _ _ => rfl⟩
  | cons f l ih =>
    have hf := hl f mem_cons_self
    have hRest := fun f hf => hl f (mem_cons_of_mem _ hf)
    -- what one field does, and that more fuel does not change it
    obtain ⟨d, hDiags, hOne, hDone, hSame⟩ : ∃ d,
        (vobjVisit (im.hasVobjCycle fuel) n acc f).2 = acc.2 ++ d ∧
        Searched im acc.1 (vobjVisit (im.hasVobjCycle fuel) n acc f).1 d ∧
        (d = [] → f ∈ (vobjVisit (im.hasVobjCycle fuel) n acc f).1.black) ∧
        ∀ k, im.nodeCount < k + (acc.1.gray ++ acc.1.black).length →
          vobjVisit (im.hasVobjCycle k) n acc f = vobjVisit (im.hasVobjCycle fuel) n acc f := by
      by_cases hGray : f ∈ acc.1.gray
      · simp only [vobjVisit, hGray, if_true]
        refine ⟨_, rfl, ⟨hTidy, rfl, fun _ hv => hv, by simp, fun _ => ?_⟩, by simp, by simp⟩
        exact ⟨f, TransGen.tail' (hBranch f hGray) hf⟩
      by_cases hBlack : f ∈ acc.1.black
      · simp only [vobjVisit, hGray, hBlack, if_true, if_false]
        exact ⟨[], (append_nil _).symm, Searched.refl hTidy, fun _ => trivial, fun _ _ => trivial⟩
      simp only [vobjVisit, hGray, hBlack, if_false]
      have hStart : Startable im fuel f acc.1 := by
        refine ⟨hTidy, (nested_object hf).2, ?_, fun v hv => (hBranch v hv).tail hf, hFuel⟩
        simp [hGray, hBlack]
      obtain ⟨hSearched, hBlack, hFuels⟩ := hMeets f acc.1 hStart
      refine ⟨_, rfl, hSearched, fun _ => hBlack, fun k hk => ?_⟩
      rw [hFuels k hk]
    have hLength := hOne.length_le hTidy
    obtain ⟨ds, hDiags', hAll, hDone', hSame'⟩ := ih hRest _ hOne.tidy
      (by rw [hOne.gray]; exact hBranch) (by omega)
    simp only [foldl_cons]
    refine ⟨d ++ ds, ?_, hOne.trans hAll, ?_, ?_⟩
    · rw [hDiags', hDiags, append_assoc]
    · intro hds
      obtain ⟨hd, hds⟩ := append_eq_nil_iff.mp hds
      exact forall_mem_cons.mpr ⟨hAll.black f (hDone hd), hDone' hds⟩
    · intro k hk
      rw [hSame k hk]
      exact hSame' k (by omega)

/-- The search by induction on the fuel: a search of one object is a search of its fields
with the object on the branch. -/
theorem hasVobjCycle_meets (fuel : Nat) : Meets im fuel := by
  induction fuel with
  | zero =>
    intro n c hStart
    have hLen := hStart.tidy.length_le
    have hFuel := hStart.fuel
    omega
  | succ fuel ih =>
    intro n c hStart
    have hTidy : Colours.Tidy im { c with gray := n :: c.gray } := by
      refine ⟨nodup_cons.mpr ⟨hStart.white, hStart.tidy.nodup⟩, ?_⟩
      exact forall_mem_cons.mpr ⟨hStart.object, hStart.tidy.objects⟩
    have hBranch : ∀ v ∈ n :: c.gray, ReflTransGen im.Nested v n :=
      forall_mem_cons.mpr ⟨ReflTransGen.refl, hStart.branch⟩
    have hLonger : ((n :: c.gray) ++ c.black).length = (c.gray ++ c.black).length + 1 := by
      rw [cons_append, length_cons]
    have hFuel := hStart.fuel
    obtain ⟨ds, hDiags, hLeft, hDone, hSame⟩ :=
      visit_fields ih (fun f hf => hf) ({ c with gray := n :: c.gray }, []) hTidy hBranch
        (by rw [hLonger]; omega)
    rw [hasVobjCycle_succ]
    dsimp only
    generalize hFold : (im.virtualFields n).foldl (vobjVisit (im.hasVobjCycle fuel) n)
      ({ c with gray := n :: c.gray }, []) = left at hDiags hLeft hDone hSame ⊢
    have hGray : left.1.gray.erase n = c.gray := by
      rw [hLeft.gray]
      exact erase_cons_head n c.gray
    rw [nil_append] at hDiags
    refine ⟨⟨⟨?_, ?_⟩, hGray, ?_, ?_, ?_⟩, mem_cons_self, ?_⟩
    · -- the object moves from the branch to the finished ones
      have hNodup := hLeft.tidy.nodup
      rw [hLeft.gray] at hNodup
      rw [hGray]
      exact (perm_middle.nodup_iff).mpr hNodup
    · intro v hv
      rw [hGray] at hv
      refine hLeft.tidy.objects v ?_
      rw [hLeft.gray]
      exact perm_middle.subset hv
    · exact fun v hv => mem_cons_of_mem _ (hLeft.black v hv)
    · intro hds hFin
      rw [hDiags] at hds
      exact ⟨hDone hds, hLeft.finished hds hFin⟩
    · intro hds
      rw [hDiags] at hds
      exact hLeft.cycle hds
    · intro k hk
      have hLen := hTidy.length_le
      rw [hLonger] at hLen
      obtain ⟨k, rfl⟩ : ∃ j, k = j + 1 := ⟨k - 1, by omega⟩
      rw [hasVobjCycle_succ]
      dsimp only
      rw [hSame k (by rw [hLonger]; omega)]

/-- One node of the outer loop, for any search. -/
def vobjRoot (im : Image) (search : NodeId → Colours → Colours × List VerifyDiag)
    (acc : Colours × List VerifyDiag) (n : NodeId) : Colours × List VerifyDiag :=
  if (im.node n).kind = .virtualObjectState ∧ n ∉ acc.1.gray ∧ n ∉ acc.1.black then
    let inner := search n acc.1
    (inner.1, acc.2 ++ inner.2)
  else acc

/-- The pass with any amount of fuel for the nested calls. -/
def vobjCycles (im : Image) (fuel : Nat) : List VerifyDiag :=
  ((range im.nodeCount).foldl (vobjRoot im (im.hasVobjCycle fuel)) ({}, [])).2

/-- The nodes of the outer loop, one after the other. -/
theorem visit_roots {fuel : Nat} (hFuel : im.nodeCount < fuel) {l : List NodeId}
    (hl : ∀ n ∈ l, n < im.nodeCount) (acc : Colours × List VerifyDiag) (hTidy : acc.1.Tidy im)
    (hGray : acc.1.gray = []) :
    ∃ ds, (l.foldl (vobjRoot im (im.hasVobjCycle fuel)) acc).2 = acc.2 ++ ds ∧
      Searched im acc.1 (l.foldl (vobjRoot im (im.hasVobjCycle fuel)) acc).1 ds ∧
      (∀ n ∈ l, (im.node n).kind = .virtualObjectState →
        n ∈ (l.foldl (vobjRoot im (im.hasVobjCycle fuel)) acc).1.black) ∧
      ∀ k, im.nodeCount < k → l.foldl (vobjRoot im (im.hasVobjCycle k)) acc =
        l.foldl (vobjRoot im (im.hasVobjCycle fuel)) acc := by
  induction l generalizing acc with
  | nil => exact ⟨[], (append_nil _).symm, Searched.refl hTidy, by simp, fun _ _ => rfl⟩
  | cons n l ih =>
    obtain ⟨d, hDiags, hOne, hDone, hSame⟩ : ∃ d,
        (vobjRoot im (im.hasVobjCycle fuel) acc n).2 = acc.2 ++ d ∧
        Searched im acc.1 (vobjRoot im (im.hasVobjCycle fuel) acc n).1 d ∧
        ((im.node n).kind = .virtualObjectState →
          n ∈ (vobjRoot im (im.hasVobjCycle fuel) acc n).1.black) ∧
        ∀ k, im.nodeCount < k → vobjRoot im (im.hasVobjCycle k) acc n =
          vobjRoot im (im.hasVobjCycle fuel) acc n := by
      by_cases hWhite : (im.node n).kind = .virtualObjectState ∧ n ∉ acc.1.gray ∧ n ∉ acc.1.black
      · simp only [vobjRoot, if_pos hWhite]
        have hStart : Startable im fuel n acc.1 := by
          refine ⟨hTidy, ⟨hl n mem_cons_self, hWhite.1⟩, ?_, ?_, by omega⟩
          · simp [hWhite.2]
          · rw [hGray]
            simp
        obtain ⟨hSearched, hBlack, hFuels⟩ := hasVobjCycle_meets fuel n acc.1 hStart
        refine ⟨_, rfl, hSearched, fun _ => hBlack, fun k hk => ?_⟩
        rw [hFuels k (by omega)]
      · simp only [vobjRoot, if_neg hWhite]
        refine ⟨[], (append_nil _).symm, Searched.refl hTidy, fun hKind => ?_, by simp⟩
        by_contra hBlack
        exact hWhite ⟨hKind, by simp [hGray], hBlack⟩
    obtain ⟨ds, hDiags', hAll, hDone', hSame'⟩ :=
      ih (fun m hm => hl m (mem_cons_of_mem _ hm)) _ hOne.tidy (hOne.gray.trans hGray)
    simp only [foldl_cons]
    refine ⟨d ++ ds, ?_, hOne.trans hAll, ?_, ?_⟩
    · rw [hDiags', hDiags, append_assoc]
    · exact forall_mem_cons.mpr ⟨fun hKind => hAll.black n (hDone hKind), hDone'⟩
    · intro k hk
      rw [hSame k hk]
      exact hSame' k hk

/-- The pass reports nothing exactly when no object is nested in itself, and it takes no
deeper nesting than there are nodes. -/
theorem vobjCycles_spec : (im.checkVobjCycles = [] ↔ ∀ v, ¬ TransGen im.Nested v v) ∧
      ∀ k, im.nodeCount < k → im.vobjCycles k = im.checkVobjCycles := by
  have hEmpty : Colours.Tidy im {} := ⟨nodup_nil, by simp⟩
  obtain ⟨ds, hDiags, hAll, hDone, hSame⟩ :=
    visit_roots (Nat.lt_succ_self im.nodeCount) (fun n hn => mem_range.mp hn) ({}, [])
      hEmpty rfl
  have hEq : im.checkVobjCycles = ds := hDiags
  refine ⟨?_, fun k hk => ?_⟩
  · rw [hEq]
    constructor
    · intro hds v hCycle
      -- the object is the field of an object, so the loop has met it
      obtain ⟨u, -, hLast⟩ := TransGen.tail'_iff.mp hCycle
      obtain ⟨-, hv, hKind⟩ := nested_object hLast
      have hFin := hAll.finished hds trivial
      have hNodup := (nodup_append.mp hAll.tidy.nodup).2.1
      exact hFin.acyclic hNodup (hDone v (mem_range.mpr hv) hKind) hCycle
    · intro hAcyclic
      by_contra hds
      obtain ⟨v, hCycle⟩ := hAll.cycle hds
      exact hAcyclic v hCycle
  · rw [vobjCycles, hSame k hk]
    rfl

end Cycles

/-! ## The tables -/

theorem checkFrameState_eq_nil (hn : n < im.nodeCount) :
    im.checkFrameState n = [] ↔ (im.LiveFrame n → ∃ d,
      im.frameStates[(im.node n).payload.toNat]? = some d ∧ im.ChainOk (im.node n).payload ∧
        ∀ v ∈ d.vobjs, im.LiveObject v) := by
  unfold checkFrameState
  by_cases hLive : (im.node n).kind ≠ .frameState ∨ im.isDead n = true
  · simp only [hLive, if_true, true_iff]
    rintro ⟨-, hKind, hAlive⟩
    rcases hLive with hKind' | hDead
    · exact absurd hKind hKind'
    · rw [hAlive] at hDead
      cases hDead
  · have hFrame : im.LiveFrame n := by
      rw [not_or, not_not, Bool.not_eq_true] at hLive
      exact ⟨hn, hLive⟩
    simp only [hLive, if_false, hFrame, true_implies]
    rcases hGet : im.frameStates[(im.node n).payload.toNat]? with _ | d
    · simp
    dsimp only
    rw [append_eq_nil_iff, callerWalk_eq_nil, flatMap_eq_nil_iff]
    simp only [Option.some.injEq, exists_eq_left']
    refine and_congr Iff.rfl (forall₂_congr fun v _ => ?_)
    unfold LiveObject
    rcases im.validId v with _ | _
    · simp
    · by_cases hKind : (im.node v).kind = .virtualObjectState
      · rcases im.isDead v with _ | _ <;> simp [hKind]
      · simp [hKind]

theorem checkMaterialization_eq_nil (hn : n < im.nodeCount) : im.checkMaterialization n = [] ↔
      ((im.node n).kind = .materialize → im.isDead n = false → 3 ≤ (im.node n).inputs.length →
        im.validId (im.input n 2) = true →
        (im.node (im.input n 2)).kind = .virtualObjectState →
        ∀ f, ¬ im.Nested (im.input n 2) f) ∧
      (im.LiveFrame n → ∀ d, im.frameStates[(im.node n).payload.toNat]? = some d →
        ∀ v ∈ d.vobjs, im.validId v = true → (im.node v).kind = .virtualObjectState →
        ∀ f, im.Nested v f → f ∈ d.vobjs) := by
  unfold checkMaterialization
  by_cases hDead : im.isDead n = true
  · simp [hDead, LiveFrame]
  have hAlive : im.isDead n = false := by simpa using hDead
  simp only [hAlive, Bool.false_eq_true, if_false, append_eq_nil_iff, true_implies]
  refine and_congr ?_ ?_
  · by_cases hShape : (im.node n).kind = .materialize ∧ 3 ≤ (im.node n).inputs.length
    · rw [if_pos hShape]
      by_cases hObject : im.validId (im.input n 2) = true ∧
          (im.node (im.input n 2)).kind = .virtualObjectState
      · rw [if_pos hObject, map_eq_nil_iff, eq_nil_iff_forall_not_mem]
        exact ⟨fun h _ _ _ _ => h, fun h => h hShape.1 hShape.2 hObject.1 hObject.2⟩
      · rw [if_neg hObject]
        exact ⟨fun _ _ _ hValid hKind => absurd ⟨hValid, hKind⟩ hObject, fun _ => rfl⟩
    · rw [if_neg hShape]
      exact ⟨fun _ hKind hNum => absurd ⟨hKind, hNum⟩ hShape, fun _ => rfl⟩
  · by_cases hKind : (im.node n).kind = .frameState
    · have hFrame : im.LiveFrame n := ⟨hn, hKind, hAlive⟩
      simp only [hKind, if_true, hFrame, true_implies]
      rcases hGet : im.frameStates[(im.node n).payload.toNat]? with _ | d
      · simp
      simp only [Option.some.injEq, forall_eq', flatMap_eq_nil_iff]
      refine forall₂_congr fun v _ => ?_
      by_cases hObject : im.validId v = true ∧ (im.node v).kind = .virtualObjectState
      · simp only [hObject.1, hObject.2, Bool.not_true, bne_self_eq_false, Bool.or_self,
          Bool.false_eq_true, if_false, filterMap_eq_nil_iff, true_implies]
        refine forall₂_congr fun f _ => ?_
        by_cases hIn : f ∈ d.vobjs
        · simp [hIn]
        · simp [hIn]
      · have hSkip : (!im.validId v || (im.node v).kind != .virtualObjectState) = true := by
          rw [not_and_or] at hObject
          rcases hObject with hValid | hKind'
          · simp [hValid]
          · simp [hKind']
        rw [if_pos hSkip]
        exact ⟨fun _ hValid hKind' => absurd ⟨hValid, hKind'⟩ hObject, fun _ => rfl⟩
    · rw [if_neg hKind]
      exact ⟨fun _ hFrame => absurd hFrame.2.1 hKind, fun _ => rfl⟩

theorem reached_listed {vobjs : List NodeId} (hLive : ∀ v ∈ vobjs, im.LiveObject v)
    (hClosed : ∀ v ∈ vobjs, ∀ f, im.Nested v f → f ∈ vobjs) {v w : NodeId} (hv : v ∈ vobjs)
    (hw : ReflTransGen im.Nested v w) : im.LiveObject w ∧ w ∈ vobjs := by
  have hMem : w ∈ vobjs := by
    induction hw with
    | refl => exact hv
    | tail _ hStep ih => exact hClosed _ ih _ hStep
  exact ⟨hLive w hMem, hMem⟩

/-- What the whole verifier says of the tables is what these passes say. -/
theorem tableDiags_infix {used : NodeId → Bool} {ds : List VerifyDiag}
    (h : im.verifyDiags used = some ds) : im.tableDiags <:+: ds := by
  simp only [verifyDiags, Option.bind_eq_bind, Option.bind_eq_some_iff, Option.pure_def,
    Option.some.injEq] at h
  obtain ⟨nodes, -, vectors, -, rfl⟩ := h
  refine ⟨nodes.flatten ++ (range im.nodeCount).flatMap im.checkMemoryChain ++
    (range im.nodeCount).flatMap im.checkSpeculation, vectors.flatten, ?_⟩
  simp only [tableDiags, append_assoc]

/-- The passes over the side tables report nothing exactly when the tables are in order.
Every search ends: the nesting of the calls is bounded by the number of nodes. -/
theorem tableDiags_exact (im : Image) : (im.tableDiags = [] ↔ im.TablesOk) ∧
      (∀ used ds, im.verifyDiags used = some ds → im.tableDiags <:+: ds) ∧
      ∀ k, im.nodeCount < k → im.vobjCycles k = im.checkVobjCycles := by
  refine ⟨?_, fun used ds h => tableDiags_infix h, vobjCycles_spec.2⟩
  rw [tableDiags, append_eq_nil_iff, append_eq_nil_iff, flatMap_eq_nil_iff,
    flatMap_eq_nil_iff, vobjCycles_spec.1]
  constructor
  · rintro ⟨⟨hFrames, hAcyclic⟩, hMaterialization⟩
    have hFrame := fun n hn => (checkFrameState_eq_nil hn).mp (hFrames n (mem_range.mpr hn))
    have hMaterialized := fun n hn =>
      (checkMaterialization_eq_nil hn).mp (hMaterialization n (mem_range.mpr hn))
    constructor
    case descriptor =>
      intro n hn
      obtain ⟨d, hd, -⟩ := hFrame n hn.1 hn
      exact (List.getElem?_eq_some_iff.mp hd).1
    case callers =>
      intro n hn
      obtain ⟨d, -, hChain, -⟩ := hFrame n hn.1 hn
      exact hChain
    case objects =>
      intro n d hn hd v hv w hw
      obtain ⟨e, he, -, hLive⟩ := hFrame n hn.1 hn
      rw [hd] at he
      cases he
      refine reached_listed hLive (fun v hv f hf => ?_) hv hw
      exact (hMaterialized n hn.1).2 hn d hd v hv (hLive v hv).1 (hLive v hv).2.1 f hf
    case acyclic =>
      exact hAcyclic
    case materialized =>
      exact fun m hm => (hMaterialized m hm).1
  · intro h
    refine ⟨⟨fun n hn => ?_, h.acyclic⟩, fun n hn => ?_⟩
    · have hn := mem_range.mp hn
      refine (checkFrameState_eq_nil hn).mpr fun hFrame => ?_
      have hGet := getElem?_eq_getElem (h.descriptor n hFrame)
      refine ⟨_, hGet, h.callers n hFrame, fun v hv => ?_⟩
      exact (h.objects n _ hFrame hGet v hv v ReflTransGen.refl).1
    · have hn := mem_range.mp hn
      refine (checkMaterialization_eq_nil hn).mpr ⟨h.materialized n hn, ?_⟩
      intro hFrame d hd v hv _ _ f hf
      exact (h.objects n d hFrame hd v hv f (ReflTransGen.single hf)).2

/-- Chains in range and acyclic, objects that resolve, and nothing more. -/
structure Resolves (im : Image) : Prop where
  callers : ∀ n, im.LiveFrame n → ∀ a, ReflTransGen im.CallerOf (im.node n).payload a →
    (a ≠ kInvalidFrameState → a.toNat < im.frameStates.length) ∧ ¬ TransGen im.CallerOf a a
  objects : ∀ n d, im.LiveFrame n → im.frameStates[(im.node n).payload.toNat]? = some d →
    ∀ v ∈ d.vobjs, ∀ w, ReflTransGen im.Nested v w → im.LiveObject w

/-- A live frame state whose caller's only node was killed. -/
def killedCaller : Store :=
  let caller := (Store.fresh.makeFrameState 0 0 [] kInvalidFrameState []).1
  (caller.makeFrameState 0 0 [] 0 []).1.killNode 1

/-- The caller chain of the live frame state is in range and acyclic and no object is
listed, but the verifier asks for a live node of the caller. -/
theorem not_tableDiags_resolves :
    ¬ (killedCaller.image.tableDiags = [] ↔ Resolves killedCaller.image) := by
  have hDiags : killedCaller.image.tableDiags ≠ [] := by decide +kernel
  have hFrames : killedCaller.image.frameStates = [{}, { caller := 0 }] := by decide +kernel
  have hOnly : ∀ n, killedCaller.image.LiveFrame n → n = 2 := by
    rintro n ⟨hn, hKind, hAlive⟩
    have hCount : killedCaller.image.nodeCount = 3 := by decide +kernel
    rw [hCount] at hn
    have hRest : ∀ m < 3, (killedCaller.image.node m).kind = .frameState →
        killedCaller.image.isDead m = false → m = 2 := by decide +kernel
    exact hRest n hn hKind hAlive
  have hPayload : (killedCaller.image.node 2).payload = 1 := by decide +kernel
  -- the chain is descriptor 1, descriptor 0, end
  have hChain : Finished killedCaller.image.CallerOf [1, 0, kInvalidFrameState] := by
    refine ⟨?_, ?_, fun b hb => absurd hb not_callerOf_invalid, trivial⟩
    all_goals
      rintro b ⟨-, d, hd, rfl⟩
      rw [hFrames] at hd
      cases hd
      decide
  intro hIff
  refine hDiags (hIff.mpr ⟨?_, ?_⟩)
  · intro n hn a ha
    rw [hOnly n hn, hPayload] at ha
    have hMem := hChain.reaches mem_cons_self ha
    refine ⟨fun hne => ?_, hChain.acyclic (by decide) hMem⟩
    rw [hFrames]
    simp only [mem_cons, not_mem_nil, or_false] at hMem
    rcases hMem with rfl | rfl | rfl
    · decide
    · decide
    · exact absurd rfl hne
  · intro n d hn hd v hv
    rw [hOnly n hn, hPayload, hFrames] at hd
    cases hd
    cases hv

end B2Compiler.Ir.Image
