import B2Compiler.Codegen.Instantiate
import B2Compiler.Baseline.PlanWellFormed

/-!
# The layout of an instantiated method

Offsets are 32-bit sums.  As long as the method really fits into 32 bits none of them
wraps, and the entry stubs, the instances, the thunks and the exit follow each other
without gap or overlap.  The pc map is then the table of that tiling, and its binary
search finds the instance an offset lies in.
-/

namespace B2Compiler.Instantiate

open Rbc List Option Nat
open Baseline
open Codegen (SwitchCases parseSwitch)
open Lib.Tiling

theorem u32_of_lt {n : Nat} (h : n < 2 ^ 32) : u32 n = n := mod_eq_of_lt h

/-- A factor of a product that does not wrap does not wrap either, unless the other
factor is zero. -/
theorem mul_u32 {a b : Nat} (h : a * b < 2 ^ 32) : a * u32 b = a * b := by
  rcases Nat.eq_zero_or_pos a with rfl | hpos
  · rw [Nat.zero_mul, Nat.zero_mul]
  · have hle := Nat.le_mul_of_pos_left b hpos
    rw [u32_of_lt (by omega)]

/-! ## Sizes without wrapping -/

/-- Bytes an instance takes: its record, or the chain of its switch. -/
def trueSize (m : Method) (archive : Archive) (t : Templates) (inst : StencilInstance) : Nat :=
  if (archive.record inst.stencil).code ≠ [] then (archive.record inst.stencil).code.length
  else
    match parseSwitch m (codeAt m inst.rbcPcStart) with
    | none => 0
    | some sw => sw.cases.length * t.switchCase.code.length + t.goto.code.length

def entryBytes (plan : StencilPlan) (t : Templates) : Nat :=
  (1 + (handlerPcs plan).length) * t.entry.code.length

/-- Bytes the whole method takes. -/
def fullSize (m : Method) (plan : StencilPlan) (archive : Archive) (t : Templates) : Nat :=
  entryBytes plan t + (plan.instances.map (trueSize m archive t)).sum +
    plan.deoptPoints.length * t.thunk.code.length + t.exit.code.length

def InstLayout.stop (l : InstLayout) : Nat := l.real + l.size

structure Sized (m : Method) (archive : Archive) (t : Templates) (inst : StencilInstance)
    (size : Nat) (sw : Option SwitchCases) : Prop where
  size : size = trueSize m archive t inst
  switch : (archive.record inst.stencil).code = [] →
    ∃ cases, sw = some cases ∧ parseSwitch m (codeAt m inst.rbcPcStart) = some cases

section Sizes

variable {m : Method} {plan : StencilPlan} {archive : Archive} {t : Templates}

theorem sizeInstance_spec {inst : StencilInstance} {s : Nat × Option SwitchCases}
    (h : sizeInstance m archive t inst = .ok s) (hlt : trueSize m archive t inst < 2 ^ 32) :
    Sized m archive t inst s.1 s.2 := by
  unfold sizeInstance at h
  unfold trueSize at hlt
  dsimp only at h
  split at h
  · rename_i hcode
    cases h
    rw [if_pos hcode] at hlt
    refine ⟨?_, fun hempty => absurd hempty hcode⟩
    rw [trueSize, if_pos hcode, u32_of_lt hlt]
  · rename_i hcode
    rw [if_neg hcode] at hlt
    split at h
    · cases h
    split at h
    · cases h
    rename_i sw hparse
    cases h
    rw [hparse] at hlt
    dsimp only at hlt
    have hgoto : t.goto.code.length < 2 ^ 32 := by omega
    refine ⟨?_, fun _ => ⟨sw, rfl, hparse⟩⟩
    rw [trueSize, if_neg hcode, hparse]
    dsimp only
    rw [u32_of_lt hgoto, u32_of_lt hlt]

theorem sizeAll_spec {insts : List StencilInstance} {sizes : List (Nat × Option SwitchCases)}
    (h : sizeAll m archive t insts = .ok sizes)
    (hlt : (insts.map (trueSize m archive t)).sum < 2 ^ 32) :
    List.Forall₂ (fun inst s => Sized m archive t inst s.1 s.2) insts sizes := by
  induction insts generalizing sizes with
  | nil =>
    cases h
    exact List.Forall₂.nil
  | cons inst insts ih =>
    rw [map_cons, sum_cons] at hlt
    unfold sizeAll at h
    split at h
    · cases h
    rename_i s hs
    split at h
    · cases h
    · rename_i ss hss
      cases h
      exact List.Forall₂.cons (sizeInstance_spec hs (by omega)) (ih hss (by omega))

theorem sum_sizes {insts : List StencilInstance} {sizes : List (Nat × Option SwitchCases)}
    (h : List.Forall₂ (fun inst s => Sized m archive t inst s.1 s.2) insts sizes) :
    (sizes.map Prod.fst).sum = (insts.map (trueSize m archive t)).sum := by
  induction h with
  | nil => rfl
  | cons hs _ ih => rw [map_cons, sum_cons, map_cons, sum_cons, ih, hs.size]

end Sizes

variable {sizes : List (Nat × Option SwitchCases)} {insts : List InstLayout}

theorem placeEnd_eq {cur : Nat} (h : cur + (sizes.map Prod.fst).sum < 2 ^ 32) :
    placeEnd cur sizes = cur + (sizes.map Prod.fst).sum := by
  induction sizes generalizing cur with
  | nil => rfl
  | cons s sizes ih =>
    rw [map_cons, sum_cons] at h ⊢
    show placeEnd (u32 (cur + s.1)) sizes = _
    rw [u32_of_lt (by omega), ih (by omega)]
    omega

theorem place_tiles {cur : Nat} (h : cur + (sizes.map Prod.fst).sum < 2 ^ 32) :
    Tiles InstLayout.real InstLayout.stop (place cur sizes) cur
      (cur + (sizes.map Prod.fst).sum) := by
  induction sizes generalizing cur with
  | nil => rfl
  | cons s sizes ih =>
    rw [map_cons, sum_cons] at h ⊢
    refine ⟨rfl, by simp [InstLayout.stop], ?_⟩
    have htail : Tiles InstLayout.real InstLayout.stop (place (cur + s.1) sizes) (cur + s.1)
        (cur + s.1 + (sizes.map Prod.fst).sum) := ih (by omega)
    rw [u32_of_lt (by omega)]
    show Tiles InstLayout.real InstLayout.stop (place (cur + s.1) sizes) (cur + s.1) _
    rw [← add_assoc]
    exact htail

theorem place_forall {insts : List StencilInstance} {P : StencilInstance → Nat →
    Option SwitchCases → Prop} (h : List.Forall₂ (fun inst s => P inst s.1 s.2) insts sizes)
    (cur : Nat) : List.Forall₂ (fun inst l => P inst l.size l.sw) insts (place cur sizes) := by
  induction h generalizing cur with
  | nil => exact List.Forall₂.nil
  | cons hs _ ih => exact List.Forall₂.cons hs (ih _)

structure Placed (m : Method) (plan : StencilPlan) (archive : Archive) (t : Templates)
    (l : Layout) : Prop where
  insts : Tiles InstLayout.real InstLayout.stop l.insts (entryBytes plan t) l.thunkArea
  sized : List.Forall₂ (fun inst il => Sized m archive t inst il.size il.sw) plan.instances l.insts
  exit : l.exitOffset = l.thunkArea + plan.deoptPoints.length * t.thunk.code.length
  total : l.totalSize = l.exitOffset + t.exit.code.length
  small : l.totalSize ≤ kMaxCodeBytes

theorem layoutOf_placed {m : Method} {plan : StencilPlan} {archive : Archive} {t : Templates}
    {l : Layout} (h : layoutOf m plan archive t = .ok l)
    (hlt : fullSize m plan archive t < 2 ^ 32) : Placed m plan archive t l := by
  unfold layoutOf at h
  split at h
  · cases h
  rename_i sizes hsizes
  unfold fullSize at hlt
  have hall := sizeAll_spec hsizes (by omega)
  have hsum := sum_sizes hall
  have hentry : u32 (u32 (1 + u32 (handlerPcs plan).length) * u32 t.entry.code.length) =
      entryBytes plan t := by
    have hbytes : (1 + (handlerPcs plan).length) * t.entry.code.length < 2 ^ 32 := by
      have hle : entryBytes plan t < 2 ^ 32 := by omega
      exact hle
    rcases Nat.eq_zero_or_pos t.entry.code.length with hzero | hpos
    · rw [entryBytes, hzero]
      rfl
    · have hle := Nat.le_mul_of_pos_right (1 + (handlerPcs plan).length) hpos
      rw [u32_of_lt (n := (handlerPcs plan).length) (by omega),
        u32_of_lt (n := 1 + (handlerPcs plan).length) (by omega), mul_u32 hbytes,
        u32_of_lt hbytes]
      rfl
  have hfit : entryBytes plan t + (sizes.map Prod.fst).sum < 2 ^ 32 := by omega
  dsimp only at h
  rw [hentry, placeEnd_eq hfit] at h
  rw [mul_u32 (a := plan.deoptPoints.length) (by omega)] at h
  rw [u32_of_lt (n := t.exit.code.length) (by omega)] at h
  have hexit : u32 (entryBytes plan t + (sizes.map Prod.fst).sum +
      plan.deoptPoints.length * t.thunk.code.length) = entryBytes plan t +
        (sizes.map Prod.fst).sum + plan.deoptPoints.length * t.thunk.code.length :=
    u32_of_lt (by omega)
  rw [hexit, u32_of_lt (by omega)] at h
  split at h
  · cases h
  rename_i hsmall
  cases h
  exact
    { insts := place_tiles hfit
      sized := place_forall hall _
      exit := rfl
      total := rfl
      small := by
        dsimp only
        omega }

/-- The native offset an instance starts at, read off the tables. -/
theorem realOfPc_spec {plan : StencilPlan} {pc off : Nat} (h : realOfPc plan insts pc = some off) :
    ∃ (i : Nat) (inst : StencilInstance) (l : InstLayout), plan.instances[i]? = some inst ∧
      insts[i]? = some l ∧ inst.rbcPcStart = pc ∧ l.real = off := by
  unfold realOfPc at h
  split at h
  · cases h
  · rename_i i hi
    obtain ⟨inst, hinst, hstart⟩ := findInstanceAt_spec hi
    obtain ⟨l, hl, hreal⟩ := map_eq_some_iff.mp h
    exact ⟨i, inst, l, hinst, hl, hstart, hreal⟩

structure PointOf (plan : StencilPlan) (insts : List InstLayout) (p : DeoptPoint)
    (q : RealDeoptPoint) : Prop where
  deoptId : q.deoptId = p.deoptId
  rbcPc : q.rbcPc = p.rbcPc
  reason : q.reason = p.reason
  pending : q.pendingExceptionPossible = p.pendingExceptionPossible
  native : realOfPc plan insts p.rbcPc = some q.nativeOffset

theorem realPoints_spec {plan : StencilPlan} {size off : Nat} {points : List DeoptPoint}
    {out : List RealDeoptPoint} (h : realPoints plan insts (u32 size) points off = .ok out)
    (hlt : off + points.length * size < 2 ^ 32) : List.Forall₂ (PointOf plan insts) points out ∧
      Tiles RealDeoptPoint.thunkOffset (fun q => q.thunkOffset + size) out off
        (off + points.length * size) := by
  induction points generalizing off out with
  | nil =>
    cases h
    refine ⟨List.Forall₂.nil, ?_⟩
    show off = off + 0 * size
    omega
  | cons p points ih =>
    have hmul : (p :: points).length * size = points.length * size + size := by
      rw [length_cons, succ_mul]
    rw [hmul] at hlt ⊢
    have hsize : u32 size = size := u32_of_lt (by omega)
    unfold realPoints at h
    split at h
    · cases h
    rename_i native hnative
    split at h
    · cases h
    rename_i rest hrest
    cases h
    have hnext : u32 (off + u32 size) = off + size := by
      rw [hsize, u32_of_lt (by omega)]
    rw [hnext] at hrest
    obtain ⟨hall, htiles⟩ := ih hrest (by omega)
    refine ⟨List.Forall₂.cons ⟨rfl, rfl, rfl, rfl, hnative⟩ hall, rfl, ?_, ?_⟩
    · exact le_add_right off size
    · have hsum : off + (points.length * size + size) = off + size + points.length * size := by
        omega
      rw [hsum]
      exact htiles

theorem getElem?_realPcMap {plan : StencilPlan} {i : Nat} {inst : StencilInstance} {l : InstLayout}
    (hinst : plan.instances[i]? = some inst) (hl : insts[i]? = some l) :
    (realPcMap plan insts)[i]? = some ⟨l.real, u32 l.stop, inst.rbcPcStart, i⟩ := by
  rw [realPcMap, getElem?_map, getElem?_zipIdx]
  have hzip : (plan.instances.zip insts)[i]? = some (inst, l) :=
    getElem?_zip_eq_some.mpr ⟨hinst, hl⟩
  rw [hzip]
  simp [InstLayout.stop]

theorem length_realPcMap {plan : StencilPlan} (h : plan.instances.length = insts.length) :
    (realPcMap plan insts).length = insts.length := by
  rw [realPcMap, length_map, length_zipIdx, length_zip]
  omega

/-- The ranges of the pc map are those of the layout. -/
theorem realPcMap_tiles {plan : StencilPlan} {lo hi : Nat}
    (hlen : plan.instances.length = insts.length)
    (htiles : Tiles InstLayout.real InstLayout.stop insts lo hi) (hlt : hi < 2 ^ 32) :
    Tiles RealPcEntry.nativeOffset RealPcEntry.nativeEnd (realPcMap plan insts) lo hi := by
  refine htiles.of_forall₂ (forall₂_iff_get.mpr ⟨(length_realPcMap hlen).symm, ?_⟩)
  intro i h₁ h₂
  have hinst := getElem?_eq_getElem (l := plan.instances) (i := i) (by omega)
  have hl := getElem?_eq_getElem h₁
  have hget := getElem?_realPcMap hinst hl
  rw [getElem?_eq_getElem h₂] at hget
  have hstop := (htiles.bounds (getElem_mem h₁)).2.2
  rw [get_eq_getElem, get_eq_getElem, Option.some.inj hget, u32_of_lt (by omega)]
  exact ⟨rfl, rfl⟩

theorem realPcMap_pcs {plan : StencilPlan} (hlen : plan.instances.length = insts.length) :
    (realPcMap plan insts).map RealPcEntry.rbcPc =
      plan.instances.map StencilInstance.rbcPcStart := by
  apply ext_getElem?
  intro i
  rw [getElem?_map, getElem?_map]
  by_cases hi : i < insts.length
  · have hinst := getElem?_eq_getElem (l := plan.instances) (i := i) (by omega)
    rw [getElem?_realPcMap hinst (getElem?_eq_getElem hi), hinst]
    rfl
  · rw [getElem?_eq_none (by rw [length_realPcMap hlen]; omega), getElem?_eq_none (by omega)]
    rfl

/-- **The search of the pc map.**  In a map of ordered ranges it finds the range an
offset lies in. -/
theorem rbcPcAt_eq {c : CompiledCode} {lo hi : Nat}
    (htiles : Tiles RealPcEntry.nativeOffset RealPcEntry.nativeEnd c.pcMap lo hi) {i off : Nat}
    {e : RealPcEntry} (he : c.pcMap[i]? = some e) (hlo : e.nativeOffset ≤ off)
    (hhi : off < e.nativeEnd) : c.rbcPcAt off = e.rbcPc := by
  obtain ⟨hlt, hget⟩ := List.getElem?_eq_some_iff.mp he
  have hpair := pairwise_iff_getElem.mp htiles.pairwise
  have hbelow : ∀ j, j < i + 1 →
      ((c.pcMap[j]?).map RealPcEntry.nativeOffset).any (· ≤ off) = true := by
    intro j hj
    have hjlt : j < c.pcMap.length := by omega
    rw [getElem?_eq_getElem hjlt]
    rcases lt_or_ge j i with hji | hji
    · have hle := hpair j i hjlt hlt hji
      have hin := (htiles.bounds (getElem_mem hjlt)).2.1
      rw [hget] at hle
      simp only [map_some, any_some, decide_eq_true_eq]
      omega
    · have hsame : j = i := by omega
      subst hsame
      rw [hget]
      simpa using hlo
  have habove : ∀ j, i + 1 ≤ j →
      ((c.pcMap[j]?).map RealPcEntry.nativeOffset).any (· ≤ off) = false := by
    intro j hj
    by_cases hjlt : j < c.pcMap.length
    · have hle := hpair i j hlt hjlt (by omega)
      rw [hget] at hle
      rw [getElem?_eq_getElem hjlt]
      simp only [map_some, any_some, decide_eq_false_iff_not]
      omega
    · rw [getElem?_eq_none (by omega)]
      rfl
  have hfound : bisect (fun j => ((c.pcMap[j]?).map RealPcEntry.nativeOffset).any (· ≤ off))
      c.pcMap.length 0 c.pcMap.length = i + 1 :=
    bisect_eq hbelow habove (by omega) (by omega) (by omega)
  unfold CompiledCode.rbcPcAt
  rw [hfound]
  dsimp only
  rw [if_neg (by omega), Nat.add_sub_cancel, he]
  dsimp only
  rw [if_pos hhi]

end B2Compiler.Instantiate
