import B2Compiler.Baseline.PlanAudit
import B2Compiler.Baseline.LiveRegs
import B2Compiler.Lib.Tiling

/-!
# Plans are well formed

What a returned plan guarantees.  Part of it is read off the audit the builder ends
with: the instances tile the code, the offsets are contiguous and the ids unique.
The rest is read off the scan: the guard of a fused window keeps jump targets and
handler boundaries out of the inside of an instance, so that jumps arrive at instance
starts and the handlers listed for an instance cover each of its instructions.
-/

namespace B2Compiler.Baseline

open Rbc List
open Lib.Tiling

def nativeEnd (inst : StencilInstance) : Nat := inst.outputOffset + inst.outputSize

/-- What the users of a plan rely on. -/
structure WellFormedPlan (m : Method) (set : StencilSet) (plan : StencilPlan) : Prop where
  /-- The instances tile the code in order, and none of them is empty. -/
  tiles : Tiles StencilInstance.rbcPcStart StencilInstance.rbcPcEnd plan.instances 0 m.code.length
  nonempty : ∀ inst ∈ plan.instances, inst.rbcPcStart < inst.rbcPcEnd
  /-- Every instruction belongs to exactly one instance. -/
  once : ∀ pc, pc < m.code.length →
    ∃! i, At StencilInstance.rbcPcStart StencilInstance.rbcPcEnd plan.instances pc i
  /-- The first instance starts at offset zero, the next where the one before ends. -/
  entry : ∀ inst, plan.instances[0]? = some inst → inst.outputOffset = 0
  contiguous : ∀ i a b, plan.instances[i]? = some a → plan.instances[i + 1]? = some b →
    b.outputOffset = nativeEnd a
  disjoint : plan.instances.Pairwise fun a b => nativeEnd a ≤ b.outputOffset
  /-- The pc map is the table of instance starts, increasing on both sides. -/
  pcMap : plan.pcMap = pcMapOf plan.instances
  increasing : plan.pcMap.Pairwise fun a b => a.nativeOffset < b.nativeOffset ∧ a.rbcPc < b.rbcPc
  deoptIds : (plan.deoptPoints.map DeoptPoint.deoptId).Nodup
  /-- Jumps and switches arrive at instance starts, as do the branch targets that are
  patched in and the handlers of the exception edges. -/
  branches : ∀ pc, pc < m.code.length → ∀ target ∈ branchTargets m (codeAt m pc),
    ∃ inst ∈ plan.instances, inst.rbcPcStart = target
  patched : ∀ inst ∈ plan.instances, ∀ v ∈ inst.patchValues, v.source = .branchTarget →
    ∃ target ∈ plan.instances, target.rbcPcStart = v.value
  handlers : ∀ edge ∈ plan.exceptionEdges, ∃ inst ∈ plan.instances,
    inst.rbcPcStart = edge.handlerPc ∧ inst.outputOffset = edge.nativeHandler
  /-- The edges are the handler table, in its order. -/
  edges : plan.exceptionEdges.map (fun e => (e.start, e.stop, e.handlerPc, e.catchType)) =
    m.handlers.map fun h => (h.start, h.stop, h.handler, h.catchType)
  /-- The handlers listed for an instance are those that cover any of its
  instructions. -/
  covers : ∀ inst ∈ plan.instances, ∀ pc, inst.rbcPcStart ≤ pc → pc < inst.rbcPcEnd → ∀ i,
    i ∈ inst.excCovers ↔ ∃ h, m.handlers[i]? = some h ∧ h.start ≤ pc ∧ pc < h.stop
  /-- The auditor accepts. -/
  accepted : (verifyPlan plan m set).ok = true

/-! ## What the audit says -/

section Audit

variable {plan : StencilPlan} {m : Method} {set : StencilSet}

/-- The checks of an accepted plan, one by one. -/
structure Audited (plan : StencilPlan) (m : Method) (set : StencilSet) : Prop where
  tiling : tilingError set m plan.instances 0 0 = none
  layout : layoutError set plan.codeSize plan.instances 0 0 = none
  pcMap : pcMapError plan = none
  deopt : deoptError m plan.deoptPoints = none
  edges : plan.exceptionEdges.zipIdx.findSome? (edgeError plan.instances) = none

theorem audited_of_ok (h : (verifyPlan plan m set).ok = true) : Audited plan m set := by
  unfold verifyPlan at h
  split at h
  · cases h
  · rename_i hnone
    unfold planError at hnone
    simp only [Option.or_eq_none_iff] at hnone
    obtain ⟨htiling, hlayout, _, hmap, hdeopt, hedges, _, _⟩ := hnone
    exact ⟨htiling, hlayout, hmap, hdeopt, hedges⟩

/-- What the coverage check says of one instance. -/
theorem instance_checked {i expected : Nat} {inst : StencilInstance}
    (h : instanceError set m i expected inst = none) :
    inst.rbcPcStart = expected ∧ inst.rbcPcStart < inst.rbcPcEnd ∧
      inst.rbcPcEnd ≤ inst.rbcPcStart + kMaxPattern := by
  unfold instanceError at h
  split at h
  · cases h
  dsimp only at h
  split at h
  · cases h
  rename_i hstart
  split at h
  · cases h
  rename_i hrange
  split at h
  · cases h
  · rename_i hlen
    simp only [not_or, Nat.not_le, Nat.not_lt, ne_eq, not_not] at hstart hrange hlen
    exact ⟨hstart, hrange.1, by omega⟩

theorem tiles_of_check {l : List StencilInstance} {i expected : Nat}
    (h : tilingError set m l i expected = none) :
    Tiles StencilInstance.rbcPcStart StencilInstance.rbcPcEnd l expected m.code.length ∧
      ∀ inst ∈ l, inst.rbcPcStart < inst.rbcPcEnd ∧
        inst.rbcPcEnd ≤ inst.rbcPcStart + kMaxPattern := by
  induction l generalizing i expected with
  | nil =>
    refine ⟨?_, fun inst hmem => absurd hmem not_mem_nil⟩
    show expected = m.code.length
    unfold tilingError at h
    by_contra hne
    rw [if_pos hne] at h
    cases h
  | cons inst l ih =>
    rw [tilingError, Option.or_eq_none_iff] at h
    obtain ⟨hstart, hlt, hlen⟩ := instance_checked h.1
    obtain ⟨htiles, hrest⟩ := ih h.2
    refine ⟨⟨hstart, by omega, htiles⟩, fun b hb => ?_⟩
    rcases mem_cons.mp hb with rfl | hb
    · exact ⟨hlt, hlen⟩
    · exact hrest b hb

/-- Offsets are contiguous in 32-bit arithmetic. -/
def Wrapped : List StencilInstance → Nat → Prop
  | [], _ => True
  | inst :: rest, offset =>
    inst.outputOffset = offset ∧ inst.outputSize < 2 ^ 32 ∧
      Wrapped rest ((offset + inst.outputSize) % 2 ^ 32)

theorem wrapped_of_check {l : List StencilInstance} {codeSize i offset : Nat}
    (h : layoutError set codeSize l i offset = none) : Wrapped l offset := by
  induction l generalizing i offset with
  | nil => trivial
  | cons inst l ih =>
    unfold layoutError at h
    dsimp only at h
    split at h
    · cases h
    rename_i hoff
    split at h
    · cases h
    · rename_i hsize
      rw [ne_eq, not_not] at hoff hsize
      refine ⟨hoff, ?_, ih h⟩
      rw [hsize]
      exact BitVec.isLt _

theorem entries_checked {l : List (PcMapEntry × StencilInstance)} {i : Nat} {prev : Option Nat}
    (h : entriesError l i prev = none) :
    l.map Prod.fst = ((l.map Prod.snd).zipIdx i).map (fun p =>
      ⟨p.1.outputOffset, p.1.rbcPcStart, p.2⟩) ∧
    (prev.toList ++ l.map fun p => p.2.outputOffset).IsChain (· < ·) := by
  induction l generalizing i prev with
  | nil =>
    cases prev with
    | none => exact ⟨rfl, List.IsChain.nil⟩
    | some o => exact ⟨rfl, List.IsChain.singleton o⟩
  | cons p l ih =>
    obtain ⟨e, inst⟩ := p
    unfold entriesError at h
    split at h
    · cases h
    rename_i hentry
    split at h
    · cases h
    rename_i hprev
    simp only [not_or, ne_eq, not_not] at hentry
    obtain ⟨hoff, hpc, hidx⟩ := hentry
    obtain ⟨hmap, hchain⟩ := ih h
    refine ⟨?_, ?_⟩
    · simp only [map_cons, zipIdx_cons, hmap]
      congr 1
      cases e
      simp_all
    · rw [hoff] at hchain hprev
      cases prev with
      | none => exact hchain
      | some o =>
        simp only [Option.any_some, decide_eq_true_eq, Nat.not_le] at hprev
        exact List.IsChain.cons_cons hprev hchain

theorem tiles_of_wrapped {l : List StencilInstance} {offset : Nat} (hw : Wrapped l offset)
    (hlt : offset < 2 ^ 32) (hchain : (l.map StencilInstance.outputOffset).IsChain (· < ·)) :
    ∃ hi, Tiles StencilInstance.outputOffset nativeEnd l offset hi := by
  induction l generalizing offset with
  | nil => exact ⟨offset, rfl⟩
  | cons inst l ih =>
    obtain ⟨hoff, hsize, hrest⟩ := hw
    have htail : ∃ hi, Tiles StencilInstance.outputOffset nativeEnd l (nativeEnd inst) hi := by
      cases l with
      | nil => exact ⟨nativeEnd inst, rfl⟩
      | cons b l =>
        obtain ⟨hinc, hchain⟩ := isChain_cons_cons.mp hchain
        have hnext := hrest.1
        have hmod := Nat.mod_lt (offset + inst.outputSize) (show 0 < 2 ^ 32 by decide)
        have hexact : (offset + inst.outputSize) % 2 ^ 32 = nativeEnd inst := by
          unfold nativeEnd
          omega
        rw [hexact] at hrest hmod
        exact ih hrest hmod hchain
    obtain ⟨hi, htiles⟩ := htail
    refine ⟨hi, hoff, ?_, htiles⟩
    unfold nativeEnd
    omega

theorem adjacent_strict {l : List Nat} (hsorted : l.Pairwise (· ≤ ·))
    (h : adjacentDuplicate l = none) : l.Pairwise (· < ·) := by
  have hchain : l.IsChain (· < ·) := by
    induction l with
    | nil => exact List.IsChain.nil
    | cons a l ih =>
      cases l with
      | nil => exact List.IsChain.singleton a
      | cons b l =>
        unfold adjacentDuplicate at h
        split at h
        · cases h
        · rename_i hne
          have hle : a ≤ b := (pairwise_cons.mp hsorted).1 b mem_cons_self
          exact List.IsChain.cons_cons (by omega) (ih (pairwise_cons.mp hsorted).2 h)
  exact isChain_iff_pairwise.mp hchain

theorem ids_nodup {points : List DeoptPoint} (h : deoptError m points = none) :
    (points.map DeoptPoint.deoptId).Nodup := by
  unfold deoptError at h
  rw [Option.or_eq_none_iff, Option.map_eq_none_iff] at h
  have hsorted := pairwise_mergeSort' (· ≤ ·) (points.map DeoptPoint.deoptId)
  have hstrict := adjacent_strict hsorted h.1
  have hnodup := hstrict.imp (fun hlt => Nat.ne_of_lt hlt)
  exact (mergeSort_perm _ _).nodup_iff.mp hnodup

theorem findInstanceAt_spec {l : List StencilInstance} {pc idx : Nat}
    (h : findInstanceAt l pc = some idx) :
    ∃ inst, l[idx]? = some inst ∧ inst.rbcPcStart = pc := by
  unfold findInstanceAt at h
  dsimp only at h
  split at h
  · rename_i hstart
    cases h
    rw [Option.map_eq_some_iff] at hstart
    exact hstart
  · cases h

/-- The edges of an accepted plan point at instance starts. -/
theorem edge_checked {l : List StencilInstance} {p : ExceptionEdge × Nat}
    (h : edgeError l p = none) :
    ∃ inst ∈ l, inst.rbcPcStart = p.1.handlerPc ∧ inst.outputOffset = p.1.nativeHandler := by
  unfold edgeError at h
  dsimp only at h
  split at h
  · cases h
  rename_i idx hidx
  obtain ⟨inst, hinst, hstart⟩ := findInstanceAt_spec hidx
  rw [hinst] at h
  split at h
  · cases h
  · rename_i hnative
    rw [ne_eq, not_not] at hnative
    exact ⟨inst, mem_of_getElem? hinst, hstart, hnative.symm⟩

end Audit

/-! ## What the scan emits -/

section Scan

variable {set : StencilSet} {options : CompileOptions} {m : Method} {blocked : List Nat}
  {live : List (Finset Nat)}

structure Emitted (set : StencilSet) (options : CompileOptions) (m : Method)
    (blocked : List Nat) (live : List (Finset Nat)) (inst : StencilInstance) : Prop where
  origin : ∃ winner deoptId, winner ∈ set.candidates (codeAt m inst.rbcPcStart).op ∧
    selects options m inst.rbcPcStart blocked live winner = true ∧
    fillPatchValues winner m inst.rbcPcStart deoptId = .ok inst.patchValues ∧
    inst.rbcPcEnd = inst.rbcPcStart + winner.pattern.length ∧
    inst.excCovers = coveringHandlers m inst.rbcPcStart winner.pattern.length

variable {st st' : ScanState} {winner : Stencil}

theorem takeDeoptId_instances {pc id : Nat} (h : takeDeoptId st m pc = .ok (id, st')) :
    st'.instances = st.instances := by
  unfold takeDeoptId at h
  dsimp only at h
  split at h
  · split at h
    · cases h
    split at h
    · split at h
      · cases h
      · cases h
        rfl
    · cases h
      rfl
  · cases h
    rfl

theorem emitInstance_spec {pc : Nat} (h : emitInstance st winner m pc options = .ok st') :
    st.instances.length + 1 ≤ options.budget.maxInstances ∧
      ∃ st₁ deoptId values, fillPatchValues winner m pc deoptId = .ok values ∧
        st'.instances = st.instances ++ [mkInstance st₁ winner m pc values] := by
  unfold emitInstance at h
  split at h
  · cases h
  rename_i hbudget
  have hroom : st.instances.length + 1 ≤ options.budget.maxInstances := by
    unfold checkBudget at hbudget
    dsimp only at hbudget
    by_contra hfull
    rw [if_pos (by omega)] at hbudget
    cases hbudget
  refine ⟨hroom, ?_⟩
  split at h
  · cases h
  rename_i deoptId st₁ htaken
  split at h
  · cases h
  rename_i values hfill
  cases h
  refine ⟨st₁, deoptId, values, hfill, ?_⟩
  have hsame : st₁.instances = st.instances := by
    split at htaken
    · exact takeDeoptId_instances htaken
    · cases htaken
      rfl
  rw [hsame]

/-- **The scan.**  It only appends instances it selected a stencil for, and stays
within the ceiling. -/
theorem scan_spec {fuel pc : Nat} (h : scan set options m blocked live fuel pc st = .ok st')
    (hroom : st.instances.length ≤ options.budget.maxInstances)
    (hold : ∀ inst ∈ st.instances, Emitted set options m blocked live inst) :
    st'.instances.length ≤ options.budget.maxInstances ∧
      ∀ inst ∈ st'.instances, Emitted set options m blocked live inst := by
  induction fuel generalizing pc st with
  | zero =>
    cases h
    exact ⟨hroom, hold⟩
  | succ fuel ih =>
    unfold scan at h
    split at h
    · dsimp only at h
      split at h
      · cases h
      rename_i winner hwin
      split at h
      · cases h
      rename_i st₁ hemit
      obtain ⟨hfit, st₂, deoptId, values, hfill, hinst⟩ := emitInstance_spec hemit
      apply ih h
      · rw [hinst, length_append]
        exact hfit
      intro inst hmem
      rw [hinst] at hmem
      rcases mem_append.mp hmem with hmem | hmem
      · exact hold inst hmem
      · rw [mem_singleton.mp hmem]
        exact ⟨winner, deoptId, mem_of_find?_eq_some hwin, find?_some hwin, hfill, rfl, rfl⟩
    · cases h
      exact ⟨hroom, hold⟩

/-- A selected stencil is a single instruction or a window the guard let through. -/
theorem selects_cases {pc : Nat} (h : selects options m pc blocked live winner = true) :
    winner.pattern.length = 1 ∨ matchSuper winner.window m pc blocked live = true := by
  unfold selects at h
  simp only [Bool.and_eq_true, Bool.or_eq_true, beq_iff_eq] at h
  exact h.2

/-- The fusion guard: no blocked point lies strictly inside a window. -/
theorem matchSuper_inside {cand : StencilDesc} {pc t : Nat}
    (h : matchSuper cand m pc blocked live = true) (h₀ : pc < t)
    (h₁ : t < pc + cand.pattern.length) : t ∉ blocked := by
  unfold matchSuper at h
  simp only [Bool.and_eq_true] at h
  have hall := h.2
  rw [all_eq_true] at hall
  have hat := hall (t - pc) (mem_range.mpr (by omega))
  rw [show pc + (t - pc) = t by omega] at hat
  simp only [Bool.or_eq_true, beq_iff_eq, Bool.not_eq_true', contains_eq_mem,
    decide_eq_false_iff_not] at hat
  rcases hat with hzero | hfree
  · omega
  · exact hfree

/-- **Nothing observable inside an instance.** -/
theorem Emitted.inside {inst : StencilInstance} (h : Emitted set options m blocked live inst)
    {t : Nat} (ht : t ∈ blocked) : ¬(inst.rbcPcStart < t ∧ t < inst.rbcPcEnd) := by
  rintro ⟨hlo, hhi⟩
  obtain ⟨winner, _, _, hsel, _, hend, _⟩ := h.origin
  rcases selects_cases hsel with hone | hmatch
  · omega
  · rw [hend] at hhi
    exact matchSuper_inside hmatch hlo hhi ht

theorem Emitted.ops {inst : StencilInstance}
    (hcand : winner ∈ set.candidates (codeAt m inst.rbcPcStart).op)
    (hsel : selects options m inst.rbcPcStart blocked live winner = true) {k : Nat}
    {step : PatternStep} (hk : winner.pattern[k]? = some step) :
    (codeAt m (inst.rbcPcStart + k)).op = step.op := by
  rcases selects_cases hsel with hone | hmatch
  · have hzero : k = 0 := by
      have hlt := (List.getElem?_eq_some_iff.mp hk).1
      omega
    subst hzero
    have hfirst : winner.firstOp = (codeAt m inst.rbcPcStart).op := by
      unfold StencilSet.candidates at hcand
      dsimp only at hcand
      split at hcand
      · cases hcand
      · have hwhile := mem_takeWhile_imp hcand
        exact of_decide_eq_true hwhile
    unfold Stencil.firstOp at hfirst
    cases hpat : winner.pattern with
    | nil =>
      rw [hpat] at hk
      cases hk
    | cons s rest =>
      rw [hpat] at hk hfirst
      cases hk
      exact hfirst.symm
  · unfold matchSuper at hmatch
    simp only [Bool.and_eq_true] at hmatch
    have hall := all_eq_true.mp hmatch.1.1.2
    have hstep := hall (step, k) (mem_zipIdx_iff_getElem?.mpr hk)
    unfold stepMatches at hstep
    simp only [Bool.and_eq_true, beq_iff_eq] at hstep
    exact hstep.1.1.1.1

theorem supplier_spec {pattern : List PatternStep} (src : PatchSource) {pos : Nat}
    (hpos : pos ≤ pattern.length) :
    supplier pattern src pos = pattern.length ∨
      ∃ step, pattern[supplier pattern src pos]? = some step ∧
        stepSuppliesSource src step.op = true := by
  unfold supplier
  split
  · exact Or.inl rfl
  have hle : (pattern.drop pos).findIdx (fun s => stepSuppliesSource src s.op) ≤
      (pattern.drop pos).length := findIdx_le_length
  rw [length_drop] at hle
  rcases Nat.lt_or_ge ((pattern.drop pos).findIdx fun s => stepSuppliesSource src s.op)
    (pattern.drop pos).length with hlt | hge
  · right
    have hsupply := findIdx_getElem (w := hlt)
    rw [getElem_drop] at hsupply
    rw [length_drop] at hlt
    exact ⟨_, getElem?_eq_getElem (by omega), hsupply⟩
  · left
    rw [length_drop] at hge
    omega

theorem supplier_le {pattern : List PatternStep} (src : PatchSource) {pos : Nat}
    (hpos : pos ≤ pattern.length) : supplier pattern src pos ≤ pattern.length := by
  rcases supplier_spec src hpos with hend | ⟨step, hstep, _⟩
  · omega
  · exact Nat.le_of_lt (List.getElem?_eq_some_iff.mp hstep).1

theorem holeValue_branch (pc deoptId : Nat) {pos : Nat} {hole : PatchSiteDesc}
    (hsrc : hole.source = .branchTarget) (hpos : pos ≤ winner.pattern.length) :
    (holeValue winner m pc deoptId hole (supplier winner.pattern .branchTarget pos)).1 = 0 ∨
      ∃ j step, winner.pattern[j]? = some step ∧ isBranchSig (info step.op).sig = true ∧
        (holeValue winner m pc deoptId hole (supplier winner.pattern .branchTarget pos)).1 =
          (codeAt m (pc + j)).immIdx := by
  unfold holeValue
  rw [hsrc]
  rcases supplier_spec .branchTarget hpos with hend | ⟨step, hstep, hsup⟩
  · left
    rw [if_pos ⟨hend, by decide, by decide⟩]
  right
  have hlt := (List.getElem?_eq_some_iff.mp hstep).1
  refine ⟨_, step, hstep, ?_, ?_⟩
  · simpa [stepSuppliesSource, isBranchSig, or_assoc] using hsup
  · rw [if_neg (fun hc => absurd hc.1 (Nat.ne_of_lt hlt)), if_pos hlt]
    rfl

/-- A hole for a branch target holds the immediate of a branch instruction of the
instance, or zero when the pattern has no branch left for it. -/
theorem fillHoles_branch {pc deoptId : Nat} {holes : List PatchSiteDesc} {k : Nat}
    {cursor : PatchSource → Nat} {values : List PatchValue}
    (h : fillHoles winner m pc deoptId holes k cursor = .ok values)
    (hcur : ∀ src, cursor src ≤ winner.pattern.length) {v : PatchValue} (hv : v ∈ values)
    (hsrc : v.source = .branchTarget) : v.value = 0 ∨ ∃ j step, winner.pattern[j]? = some step ∧
      isBranchSig (info step.op).sig = true ∧ v.value = (codeAt m (pc + j)).immIdx := by
  induction holes generalizing k cursor values with
  | nil =>
    cases h
    cases hv
  | cons hole rest ih =>
    unfold fillHoles at h
    dsimp only at h
    split at h
    · split at h
      · cases h
      rename_i tail htail
      cases h
      rcases mem_cons.mp hv with rfl | hv
      · dsimp only at hsrc ⊢
        have hvalue := holeValue_branch (m := m) pc deoptId hsrc (hcur .branchTarget)
        rw [hsrc]
        exact hvalue
      · refine ih htail (fun src => ?_) hv
        have hstep := supplier_le hole.source (hcur hole.source)
        by_cases hsame : src = hole.source
        · rw [hsame, Function.update_self]
          split <;> omega
        · rw [Function.update_of_ne hsame]
          exact hcur src
    · cases h

end Scan

/-! ## The blocked points -/

section Blocked

variable {m : Method}

theorem markTarget_of_lt {n : Nat} {t : BitVec 32} (hpos : 0 ≤ t.toInt) (hlt : t.toNat < n) :
    markTarget n t = some t.toNat := by
  rw [markTarget, if_pos ⟨hpos, by omega⟩]

/-- An index below `2 ^ 31` is not negative. -/
theorem toInt_nonneg_of_lt {t : BitVec 32} (h : t.toNat < 2 ^ 31) : 0 ≤ t.toInt := by
  rw [BitVec.toInt_eq_toNat_of_lt (by omega)]
  exact Int.natCast_nonneg _

variable {w : BitVec 32}

theorem mem_payloadTargets {op : Op} {v : List (BitVec 32)} (hsig : (info op).sig = .regCpBranch)
    (hshape : switchShape op v = []) (hw : w ∈ switchWords op v) : w ∈ payloadTargets op v := by
  rcases (switch_row _ hsig).2 with rfl | rfl
  · obtain ⟨hlen, -⟩ := table_shape rfl hshape
    rw [switchWords, if_pos rfl] at hw
    rw [payloadTargets, if_pos rfl, if_neg (by omega)]
    exact hw
  · have hne : Op.lookupswitch ≠ .tableswitch := by decide
    have hlen := length_lookup hne hshape
    rw [payloadTargets, if_neg hne, if_neg (by omega)]
    rcases word_of_lookup hne hshape hw with hdef | hpair
    · rw [hdef]
      exact mem_cons_self
    · exact mem_cons_of_mem _ hpair

/-- A word that is an instruction index is marked. -/
theorem markTarget_of_targetPc {n : Nat} (h : targetPc n w = some w.toNat) :
    w.toNat < n ∧ markTarget n w = some w.toNat := by
  unfold targetPc at h
  split at h
  · cases h
  · rename_i hin
    have hround := BitVec.toInt_eq_toNat_cond w
    have hlt : w.toNat < n := by
      split at hround <;> omega
    exact ⟨hlt, markTarget_of_lt (by omega) hlt⟩

theorem switch_blocked {ins : Ins} (hins : ins ∈ m.code) (hsig : (info ins.op).sig = .regCpBranch)
    (hmsgs : switchMsgs m ins = []) {v : List (BitVec 32)} (hpay : switchPayload m ins = some v)
    (hw : w ∈ switchWords ins.op v) :
    w.toNat < m.code.length ∧ w.toNat ∈ computeFusionBlocked m := by
  obtain ⟨hshape, hentries⟩ := switch_clean hpay hmsgs
  obtain ⟨hlt, hmark⟩ := markTarget_of_targetPc (switchWords_valid hentries w hw)
  refine ⟨hlt, mem_append_left _ (mem_flatMap.mpr ⟨ins, hins, ?_⟩)⟩
  obtain ⟨c, hc, -, rfl⟩ := payload_entry hpay
  have hother : ¬((info ins.op).sig = .branch ∨ (info ins.op).sig = .regBranch ∨
      (info ins.op).sig = .regRegBranch) := by
    rw [hsig]
    decide
  dsimp only
  rw [if_neg hother, if_pos hsig, hc]
  exact mem_filterMap.mpr ⟨w, mem_payloadTargets hsig hshape hw, hmark⟩

theorem branch_blocked (hst : Structured m) (hsize : m.code.length ≤ 2 ^ 31) {pc target : Nat}
    (hpc : pc < m.code.length) (htarget : target ∈ branchTargets m (codeAt m pc)) :
    target < m.code.length ∧ target ∈ computeFusionBlocked m := by
  obtain ⟨_, hbranch, hswitch⟩ := structure_parts (hst.instruction pc hpc)
  have hins : codeAt m pc ∈ m.code := mem_of_getElem? (codeAt_eq hpc)
  unfold branchTargets at htarget
  dsimp only at htarget
  split at htarget
  · rename_i hsig
    rw [mem_singleton.mp htarget]
    have hlt : (codeAt m pc).imm.toNat < m.code.length := hbranch hsig
    have hmark := markTarget_of_lt (toInt_nonneg_of_lt (by omega)) hlt
    refine ⟨hlt, mem_append_left _ (mem_flatMap.mpr ⟨_, hins, ?_⟩)⟩
    have hsig' : (info (codeAt m pc).op).sig = .branch ∨ (info (codeAt m pc).op).sig = .regBranch ∨
        (info (codeAt m pc).op).sig = .regRegBranch := by
      simpa [isBranchSig, or_assoc] using hsig
    dsimp only
    rw [if_pos hsig', hmark]
    exact mem_singleton_self _
  · split at htarget
    · rename_i hsig
      split at htarget
      · rename_i v hpay
        obtain ⟨w, hw, rfl⟩ := mem_map.mp htarget
        exact switch_blocked hins hsig (hswitch hsig) hpay hw
      · cases htarget
    · cases htarget

theorem handler_blocked {h : ExceptionHandler} (hmem : h ∈ m.handlers) {t : Nat}
    (ht : t = h.start ∨ t = h.stop) (hlt : t < m.code.length) : t ∈ computeFusionBlocked m := by
  unfold computeFusionBlocked
  apply mem_append_right
  rw [mem_filter]
  refine ⟨mem_flatMap.mpr ⟨h, hmem, ?_⟩, by simp; omega⟩
  rcases ht with rfl | rfl <;> simp

end Blocked

/-! ## The builder -/

section Builder

variable {index : Nat} {m : Method} {set : StencilSet} {options : CompileOptions}
  {plan : StencilPlan}

theorem planMethod_spec (h : planMethod index m set options = .ok plan) :
    m.handlers.length ≤ 0xFFFF ∧ ∃ live st edges,
      scan set options m (computeFusionBlocked m) live m.code.length 0 {} = .ok st ∧
      exceptionEdgesOf st.instances m.handlers = .ok edges ∧
      plan = assemble index m set st edges ∧ (verifyPlan plan m set).ok = true := by
  unfold planMethod at h
  dsimp only at h
  split at h
  · cases h
  rename_i hhandlers
  split at h
  · cases h
  rename_i st hscan
  split at h
  · cases h
  rename_i edges hedges
  split at h
  · cases h
  · split at h
    · rename_i hok
      cases h
      exact ⟨by omega, _, st, edges, hscan, hedges, rfl, hok⟩
    · cases h

theorem exceptionEdgesOf_map {l : List StencilInstance} {hs : List ExceptionHandler}
    {edges : List ExceptionEdge} (h : exceptionEdgesOf l hs = .ok edges) :
    edges.map (fun e => (e.start, e.stop, e.handlerPc, e.catchType)) =
      hs.map fun h => (h.start, h.stop, h.handler, h.catchType) := by
  induction hs generalizing edges with
  | nil =>
    cases h
    rfl
  | cons x hs ih =>
    unfold exceptionEdgesOf at h
    split at h
    · cases h
    · split at h
      · cases h
      · rename_i rest hrest
        cases h
        simp only [map_cons, ih hrest]

/-- The handlers listed for an instance cover each of its instructions, and no other
handler covers any of them. -/
theorem covers_of_emitted {blocked : List Nat} {live : List (Finset Nat)}
    (hblocked : ∀ h ∈ m.handlers, ∀ t, t = h.start ∨ t = h.stop → t < m.code.length → t ∈ blocked)
    (hsmall : m.handlers.length ≤ 0xFFFF) {inst : StencilInstance}
    (hem : Emitted set options m blocked live inst) (hend : inst.rbcPcEnd ≤ m.code.length)
    {pc : Nat} (hlo : inst.rbcPcStart ≤ pc) (hhi : pc < inst.rbcPcEnd) (i : Nat) :
    i ∈ inst.excCovers ↔ ∃ h, m.handlers[i]? = some h ∧ h.start ≤ pc ∧ pc < h.stop := by
  obtain ⟨winner, _, _, _, _, hlen, hcov⟩ := hem.origin
  rw [hcov, coveringHandlers, mem_map]
  constructor
  · rintro ⟨⟨h, j⟩, hmem, rfl⟩
    rw [mem_filter, mem_zipIdx_iff_getElem?] at hmem
    obtain ⟨hj, hrange⟩ := hmem
    have hjlt := (List.getElem?_eq_some_iff.mp hj).1
    have hmod : j % 2 ^ 16 = j := Nat.mod_eq_of_lt (by omega)
    simp only [decide_eq_true_eq] at hrange
    exact ⟨h, by rw [hmod]; exact hj, by omega, by omega⟩
  · rintro ⟨h, hi, hstart, hstop⟩
    have hilt := (List.getElem?_eq_some_iff.mp hi).1
    have hmem := mem_of_getElem? hi
    refine ⟨(h, i), ?_, Nat.mod_eq_of_lt (by omega)⟩
    rw [mem_filter, mem_zipIdx_iff_getElem?]
    refine ⟨hi, ?_⟩
    -- a boundary strictly inside the instance would be blocked
    have hbefore : h.start ≤ inst.rbcPcStart := by
      by_contra hcon
      have hlt : h.start < m.code.length := by omega
      exact hem.inside (hblocked h hmem h.start (Or.inl rfl) hlt) ⟨by omega, by omega⟩
    have hafter : inst.rbcPcEnd ≤ h.stop := by
      by_contra hcon
      have hlt : h.stop < m.code.length := by omega
      exact hem.inside (hblocked h hmem h.stop (Or.inr rfl) hlt) ⟨by omega, by omega⟩
    simp only [decide_eq_true_eq]
    exact ⟨hbefore, by omega⟩

theorem pcMap_checked (h : pcMapError plan = none) : plan.pcMap = pcMapOf plan.instances ∧
      (plan.instances.map StencilInstance.outputOffset).IsChain (· < ·) := by
  unfold pcMapError at h
  split at h
  · cases h
  rename_i hlen
  rw [ne_eq, not_not] at hlen
  obtain ⟨hmap, hchain⟩ := entries_checked h
  have hfst : (plan.pcMap.zip plan.instances).map Prod.fst = plan.pcMap :=
    map_fst_zip (by omega)
  have hsnd : (plan.pcMap.zip plan.instances).map Prod.snd = plan.instances :=
    map_snd_zip (by omega)
  rw [hfst, hsnd] at hmap
  have hoffsets : (plan.pcMap.zip plan.instances).map (fun p => p.2.outputOffset) =
      plan.instances.map StencilInstance.outputOffset := by
    rw [← hsnd, map_map, hsnd]
    rfl
  rw [hoffsets] at hchain
  exact ⟨hmap, hchain⟩

theorem pcMapOf_increasing {l : List StencilInstance}
    (hnative : (l.map StencilInstance.outputOffset).IsChain (· < ·))
    (htiles : l.Pairwise fun a b => a.rbcPcEnd ≤ b.rbcPcStart)
    (hpos : ∀ inst ∈ l, inst.rbcPcStart < inst.rbcPcEnd) :
    (pcMapOf l).Pairwise fun a b => a.nativeOffset < b.nativeOffset ∧ a.rbcPc < b.rbcPc := by
  have hoffset := pairwise_map.mp (isChain_iff_pairwise.mp hnative)
  have hboth : l.Pairwise fun a b =>
      a.outputOffset < b.outputOffset ∧ a.rbcPcStart < b.rbcPcStart := by
    refine List.Pairwise.imp_of_mem ?_ (hoffset.and htiles)
    rintro a b ha _ ⟨hlt, hle⟩
    exact ⟨hlt, Nat.lt_of_lt_of_le (hpos a ha) hle⟩
  unfold pcMapOf
  rw [pairwise_map]
  have hfst : (l.zipIdx.map Prod.fst) = l := zipIdx_map_fst 0 l
  rw [← hfst, pairwise_map] at hboth
  exact hboth

end Builder

/-- Opcode stencils of four instructions and one superinstruction. -/
def smallSet : StencilSet where
  stencils :=
    [{},
      { id := 1, name := "iconst", pattern := [{ op := .iconst }], nominalSize := 16,
        patches := [{ kind := .slotOffset, source := .insDst }, { source := .insImm }] },
      { id := 2, name := "iload_ireturn", category := .superinstruction, dstSkipMask := 1,
        pattern := [{ op := .iload }, { op := .ireturn, useAsA := some 0 }], nominalSize := 12,
        patches := [{ kind := .slotOffset, source := .frameSlot }] },
      { id := 3, name := "iload", pattern := [{ op := .iload }], nominalSize := 8 },
      { id := 4, name := "goto", pattern := [{ op := .goto }], nominalSize := 5,
        patches := [{ kind := .branchRel32, source := .branchTarget }] },
      { id := 5, name := "ireturn", pattern := [{ op := .ireturn }], nominalSize := 8 }]

/-- A jump over a covered instruction to a window that is fused and is the handler. -/
def jumpToFused : Method where
  descriptor := "(I)I"
  flags := 8
  numRegs := 2
  numLocals := 1
  code := [⟨.goto, 0, 0, 0, 2⟩, ⟨.iconst, 0, 0, 0, 5⟩, ⟨.iload, 1, 0, 0, 0⟩, ⟨.ireturn, 0, 1, 0, 0⟩]
  handlers := [⟨0, 2, 2, -1⟩]

end B2Compiler.Baseline
