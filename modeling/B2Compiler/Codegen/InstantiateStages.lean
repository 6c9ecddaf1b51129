import B2Compiler.Codegen.InstantiatePieces

/-!
# The stages of the instantiator

What each stage hands over: the pieces of the entry stubs, of the instances and of the
thunks, where they lie, and what stands in their holes.  A stage that returns has found
a value for every hole of the records it copied.
-/

namespace B2Compiler.Instantiate

open Rbc List Nat
open Baseline
open Interp (Runtime)
open Codegen (SwitchCases parseSwitch le32)
open Lib.X86 (Byte)
open Lib.Tiling

/-! ## Single holes -/

section Holes

variable {c : Ctx} {inst : StencilInstance} {name : String} {base : Nat} {op : Op}
  {h : ArchiveHole} {pv : PatchValue} {rt rt' : Runtime} {f : Fill}

@[simp] theorem wordFill_hole (h : ArchiveHole) (v : BitVec 32) : (wordFill h v).hole = h := rfl

@[simp] theorem wordFill_length (h : ArchiveHole) (v : BitVec 32) :
    (wordFill h v).data.length = 4 := rfl

@[simp] theorem relFill_hole (base target : Nat) (h : ArchiveHole) :
    (relFill base target h).hole = h := rfl

@[simp] theorem relFill_length (base target : Nat) (h : ArchiveHole) :
    (relFill base target h).data.length = 4 := rfl

section

variable (hfill : planFill c base op h pv rt = .ok (f, rt'))
include hfill

theorem planFill_word : ∃ v, f = wordFill h v := by
  unfold planFill at hfill
  split at hfill
  case h_2 =>
    split at hfill
    all_goals
      cases hfill
      exact ⟨_, rfl⟩
  case h_3 | h_4 | h_5 | h_7 =>
    split at hfill
    · cases hfill
    · cases hfill
      exact ⟨_, rfl⟩
  all_goals
    cases hfill
    exact ⟨_, rfl⟩

theorem planFill_branch (hsrc : h.source = .branchTarget) :
    ∃ target, c.realOf (u32 pv.value) = some target ∧ f = relFill base target h := by
  unfold planFill at hfill
  rw [hsrc] at hfill
  dsimp only at hfill
  split at hfill
  · cases hfill
  · rename_i target htarget
    cases hfill
    exact ⟨target, htarget, rfl⟩

theorem planFill_deopt (hsrc : h.source = .deoptIdSource) :
    ∃ p, c.findPointById (u32 pv.value) = some p ∧ f = relFill base p.thunkOffset h := by
  unfold planFill at hfill
  rw [hsrc] at hfill
  dsimp only at hfill
  split at hfill
  · cases hfill
  · rename_i p hp
    cases hfill
    exact ⟨p, hp, rfl⟩

end

theorem streamFill_word (hfill : streamFill c inst name h = .ok f) : ∃ v, f = wordFill h v := by
  unfold streamFill at hfill
  dsimp only at hfill
  split at hfill
  case h_6 => cases hfill
  all_goals
    cases hfill
    exact ⟨_, rfl⟩

/-- A hole gets as many bytes as its channel has. -/
theorem otherFill_size (hfill : otherFill c inst name base op h = .ok f) :
    f.hole = h ∧ f.data.length = fillSize h := by
  unfold otherFill at hfill
  unfold fillSize
  split at hfill
  case h_1 htag | h_2 htag =>
    obtain ⟨v, rfl⟩ := streamFill_word hfill
    rw [htag]
    exact ⟨rfl, rfl⟩
  case h_3 htag | h_4 htag | h_5 htag =>
    split at hfill
    · cases hfill
    · cases hfill
      rw [htag]
      exact ⟨rfl, rfl⟩
  all_goals cases hfill

theorem otherFill_layout (hfill : otherFill c inst name base op h = .ok f)
    (htag : h.tag = .layout) :
    ∃ p, c.coveringPoint inst = some p ∧ f = relFill base p.thunkOffset h := by
  unfold otherFill at hfill
  rw [htag] at hfill
  dsimp only at hfill
  split at hfill
  · cases hfill
  · rename_i p hp
    cases hfill
    exact ⟨p, hp, rfl⟩

end Holes

/-! ## The holes of an instance -/

/-- The plan holes of a record with the plan values they take: the next value of the
same source each. -/
def planPairs : List ArchiveHole → List PatchValue → List (ArchiveHole × PatchValue)
  | [], _ => []
  | h :: rest, left =>
    if h.tag = .plan then
      match nextPlanValue h.source left with
      | none => []
      | some (pv, left) => (h, pv) :: planPairs rest left
    else planPairs rest left

theorem nextPlanValue_spec {src : PatchSource} {left rest : List PatchValue} {pv : PatchValue}
    (h : nextPlanValue src left = some (pv, rest)) :
    pv ∈ left ∧ pv.source = src ∧ ∀ v ∈ rest, v ∈ left := by
  unfold nextPlanValue at h
  split at h
  · cases h
  rename_i v tail hdrop
  cases h
  have hsuffix : (pv :: rest) <:+ left := by
    rw [← hdrop]
    exact dropWhile_suffix _
  refine ⟨hsuffix.subset mem_cons_self, ?_, fun v hv => hsuffix.subset (mem_cons_of_mem pv hv)⟩
  have hhead := head?_dropWhile_not (fun v => decide (v.source ≠ src)) left
  rw [hdrop] at hhead
  simpa using hhead

theorem mem_planPairs {holes : List ArchiveHole} {left : List PatchValue} {h : ArchiveHole}
    {pv : PatchValue} (hmem : (h, pv) ∈ planPairs holes left) :
    h ∈ holes ∧ pv ∈ left ∧ pv.source = h.source := by
  induction holes generalizing left with
  | nil => cases hmem
  | cons g rest ih =>
    unfold planPairs at hmem
    split at hmem
    · split at hmem
      · cases hmem
      rename_i v left' hnext
      obtain ⟨hv, hsrc, hleft⟩ := nextPlanValue_spec hnext
      rcases mem_cons.mp hmem with heq | hmem
      · cases heq
        exact ⟨mem_cons_self, hv, hsrc⟩
      · obtain ⟨hh, hpv, hs⟩ := ih hmem
        exact ⟨mem_cons_of_mem g hh, hleft _ hpv, hs⟩
    · obtain ⟨hh, hpv, hs⟩ := ih hmem
      exact ⟨mem_cons_of_mem g hh, hpv, hs⟩

structure HolesFilled (c : Ctx) (inst : StencilInstance) (base : Nat) (holes : List ArchiveHole)
    (left : List PatchValue) (fills : List Fill) : Prop where
  all : fills.map Fill.hole = holes
  sizes : ∀ f ∈ fills, f.data.length = fillSize f.hole
  /-- Every plan hole has found a value. -/
  paired : (planPairs holes left).map Prod.fst = holes.filter fun h => h.tag = .plan
  branches : ∀ h pv, (h, pv) ∈ planPairs holes left → h.source = .branchTarget →
    ∃ target, c.realOf (u32 pv.value) = some target ∧ relFill base target h ∈ fills
  deopts : ∀ h pv, (h, pv) ∈ planPairs holes left → h.source = .deoptIdSource →
    ∃ p, c.findPointById (u32 pv.value) = some p ∧ relFill base p.thunkOffset h ∈ fills
  traps : ∀ h ∈ holes, h.tag = .layout →
    ∃ p, c.coveringPoint inst = some p ∧ relFill base p.thunkOffset h ∈ fills

section Patch

variable {c : Ctx} {inst : StencilInstance} {name : String} {base : Nat} {op : Op}
  {h : ArchiveHole} {rest : List ArchiveHole} {left left' : List PatchValue} {pv : PatchValue}
  {rt rt' : Runtime} {f : Fill} {fs : List Fill}

theorem HolesFilled.nil : HolesFilled c inst base [] left [] := by
  refine ⟨rfl, fun f hf => ?_, rfl, fun k pv hmem => ?_, fun k pv hmem => ?_, fun k hmem => ?_⟩
  · cases hf
  all_goals cases hmem

theorem HolesFilled.plan (htag : h.tag = .plan)
    (hnext : nextPlanValue h.source left = some (pv, left'))
    (hfill : planFill c base op h pv rt = .ok (f, rt'))
    (hrest : HolesFilled c inst base rest left' fs) :
    HolesFilled c inst base (h :: rest) left (f :: fs) := by
  have hpairs : planPairs (h :: rest) left = (h, pv) :: planPairs rest left' := by
    rw [planPairs, if_pos htag, hnext]
  obtain ⟨w, hword⟩ := planFill_word hfill
  refine ⟨?_, ?_, ?_, ?_, ?_, ?_⟩
  · rw [map_cons, hrest.all, hword, wordFill_hole]
  · intro g hg
    rcases mem_cons.mp hg with rfl | hg
    · rw [hword, wordFill_length, wordFill_hole, fillSize, htag]
    · exact hrest.sizes g hg
  · rw [hpairs, map_cons, hrest.paired, filter_cons_of_pos (by simpa using htag)]
  · intro k v hmem hsrc
    rw [hpairs] at hmem
    rcases mem_cons.mp hmem with heq | hmem
    · cases heq
      obtain ⟨target, htarget, rfl⟩ := planFill_branch hfill hsrc
      exact ⟨target, htarget, mem_cons_self⟩
    · obtain ⟨target, htarget, hin⟩ := hrest.branches k v hmem hsrc
      exact ⟨target, htarget, mem_cons_of_mem f hin⟩
  · intro k v hmem hsrc
    rw [hpairs] at hmem
    rcases mem_cons.mp hmem with heq | hmem
    · cases heq
      obtain ⟨p, hp, rfl⟩ := planFill_deopt hfill hsrc
      exact ⟨p, hp, mem_cons_self⟩
    · obtain ⟨p, hp, hin⟩ := hrest.deopts k v hmem hsrc
      exact ⟨p, hp, mem_cons_of_mem f hin⟩
  · intro k hmem hlayout
    rcases mem_cons.mp hmem with rfl | hmem
    · rw [htag] at hlayout
      cases hlayout
    · obtain ⟨p, hp, hin⟩ := hrest.traps k hmem hlayout
      exact ⟨p, hp, mem_cons_of_mem f hin⟩

theorem HolesFilled.other (htag : h.tag ≠ .plan) (hfill : otherFill c inst name base op h = .ok f)
    (hrest : HolesFilled c inst base rest left fs) :
    HolesFilled c inst base (h :: rest) left (f :: fs) := by
  have hpairs : planPairs (h :: rest) left = planPairs rest left := by
    rw [planPairs, if_neg htag]
  obtain ⟨hhole, hsize⟩ := otherFill_size hfill
  refine ⟨?_, ?_, ?_, ?_, ?_, ?_⟩
  · rw [map_cons, hrest.all, hhole]
  · intro g hg
    rcases mem_cons.mp hg with rfl | hg
    · rw [hhole]
      exact hsize
    · exact hrest.sizes g hg
  · rw [hpairs, hrest.paired, filter_cons_of_neg (by simpa using htag)]
  · intro k v hmem hsrc
    rw [hpairs] at hmem
    obtain ⟨target, htarget, hin⟩ := hrest.branches k v hmem hsrc
    exact ⟨target, htarget, mem_cons_of_mem f hin⟩
  · intro k v hmem hsrc
    rw [hpairs] at hmem
    obtain ⟨p, hp, hin⟩ := hrest.deopts k v hmem hsrc
    exact ⟨p, hp, mem_cons_of_mem f hin⟩
  · intro k hmem hlayout
    rcases mem_cons.mp hmem with rfl | hmem
    · obtain ⟨p, hp, rfl⟩ := otherFill_layout hfill hlayout
      exact ⟨p, hp, mem_cons_self⟩
    · obtain ⟨p, hp, hin⟩ := hrest.traps k hmem hlayout
      exact ⟨p, hp, mem_cons_of_mem f hin⟩

end Patch

/-- **The holes of an instance.**  A record is only copied when every hole has found what
goes into it. -/
theorem patchHoles_spec {c : Ctx} {inst : StencilInstance} {name : String} {base : Nat} {op : Op}
    {holes : List ArchiveHole} {left : List PatchValue} {rt rt' : Runtime} {fills : List Fill}
    (h : patchHoles c inst name base op holes left rt = .ok (fills, rt')) :
    HolesFilled c inst base holes left fills := by
  induction holes generalizing left rt fills with
  | nil =>
    cases h
    exact HolesFilled.nil
  | cons g rest ih =>
    unfold patchHoles at h
    split at h
    · rename_i htag
      split at h
      · cases h
      rename_i v left' hnext
      split at h
      · cases h
      rename_i f rt₁ hfill
      split at h
      · cases h
      · rename_i fs rt₂ hrest
        cases h
        exact HolesFilled.plan htag hnext hfill (ih hrest)
    · rename_i htag
      split at h
      · cases h
      rename_i f hfill
      split at h
      · cases h
      · rename_i fs rt₂ hrest
        cases h
        exact HolesFilled.other htag hfill (ih hrest)

structure Templates.From (t : Templates) (archive : Archive) : Prop where
  entry : t.entry ∈ archive.records
  thunk : t.thunk ∈ archive.records
  exit : t.exit ∈ archive.records
  switchCase : t.switchCase ∈ archive.records
  goto : t.goto ∈ archive.records

variable {archive : Archive}

theorem mem_of_internal {name : String} {r : ArchiveRecord} (h : archive.internal name = some r) :
    r ∈ archive.records :=
  mem_of_mem_drop (mem_of_find?_eq_some h)

theorem record_mem {id : Nat} (h : (archive.record id).code ≠ []) :
    archive.record id ∈ archive.records := by
  unfold Archive.record at h ⊢
  by_cases hlt : id < archive.records.length
  · rw [getD_eq_getElem?_getD, getElem?_eq_getElem hlt, Option.getD_some]
    exact getElem_mem hlt
  · rw [getD_eq_getElem?_getD, getElem?_eq_none (by omega)] at h
    exact absurd rfl h

theorem templatesOf_from {set : StencilSet} {t : Templates} (h : templatesOf set archive = .ok t) :
    t.From archive := by
  unfold templatesOf at h
  split at h
  · rename_i entry thunk exit switchCase hentry hthunk hexit hcase
    dsimp only at h
    split at h
    · cases h
    · rename_i hgoto
      cases h
      exact ⟨mem_of_internal hentry, mem_of_internal hthunk, mem_of_internal hexit,
        mem_of_internal hcase, record_mem fun hempty => hgoto (Or.inr hempty)⟩
  · cases h

structure Ctx.Copies (c : Ctx) (p : Piece) : Prop where
  fits : p.Fits
  archived : p.record ∈ c.archive.records

/-! ## Switches -/

/-- What stands in the holes of one case. -/
structure CaseFilled (base selOff target : Nat) (value : BitVec 32) (holes : List ArchiveHole)
    (fills : List Fill) : Prop where
  all : fills.map Fill.hole = holes
  sizes : ∀ f ∈ fills, f.data.length = wordSize f.hole
  selectors : ∀ h ∈ holes, h.tag = .stream → wordFill h (word selOff) ∈ fills
  values : ∀ h ∈ holes, h.tag = .switchMatch → wordFill h value ∈ fills
  targets : ∀ h ∈ holes, h.tag = .switchTarget → relFill base target h ∈ fills

theorem caseFills_spec {base selOff target : Nat} {value : BitVec 32} {holes : List ArchiveHole}
    {fills : List Fill} (h : caseFills base selOff target value holes = .ok fills) :
    CaseFilled base selOff target value holes fills := by
  induction holes generalizing fills with
  | nil =>
    cases h
    refine ⟨rfl, fun f hf => ?_, fun k hk => ?_, fun k hk => ?_, fun k hk => ?_⟩
    · cases hf
    all_goals cases hk
  | cons g rest ih =>
    unfold caseFills at h
    split at h
    · cases h
    rename_i f hfill
    split at h
    · cases h
    rename_i fs hrest
    cases h
    have hr := ih hrest
    have hf : f.hole = g ∧ f.data.length = 4 ∧
        (g.tag = .stream → f = wordFill g (word selOff)) ∧
        (g.tag = .switchMatch → f = wordFill g value) ∧
        (g.tag = .switchTarget → f = relFill base target g) := by
      unfold caseFill at hfill
      split at hfill
      case h_4 => cases hfill
      all_goals
        rename_i htag
        cases hfill
        rw [htag]
        simp
    obtain ⟨hhole, hlen, hstream, hmatch, htarget⟩ := hf
    have hmem {t : HoleTag} {F : ArchiveHole → Fill} (hhead : g.tag = t → f = F g)
        (htail : ∀ k ∈ rest, k.tag = t → F k ∈ fs) :
        ∀ k ∈ g :: rest, k.tag = t → F k ∈ f :: fs := by
      intro k hk htag
      rcases mem_cons.mp hk with rfl | hk
      · rw [hhead htag]
        exact mem_cons_self
      · exact mem_cons_of_mem f (htail k hk htag)
    refine ⟨?_, ?_, hmem hstream hr.selectors, hmem hmatch hr.values, hmem htarget hr.targets⟩
    · rw [map_cons, hr.all, hhole]
    · intro e he
      rcases mem_cons.mp he with rfl | he
      · exact hlen
      · exact hr.sizes e he

/-- The piece of a record all of whose holes get a displacement to one target. -/
def jumpPiece (r : ArchiveRecord) (base target : Nat) : Piece :=
  ⟨base, r, r.holes.map (relFill base target)⟩

theorem jumpPiece_fits {r : ArchiveRecord} (hroomy : Roomy wordSize r) (base target : Nat) :
    (jumpPiece r base target).Fits := by
  refine fits_of_roomy hroomy ?_ fun f hf => ?_
  · rw [map_map]
    exact map_id r.holes
  · obtain ⟨h, _, rfl⟩ := mem_map.mp hf
    rfl

/-- The pieces of a switch: one copy of the case template for each case, behind them a
copy of the `goto` record. -/
structure SwitchChain (c : Ctx) (selOff dflt at_ : Nat) (cases : List (BitVec 32 × Nat))
    (pieces : List Piece) : Prop where
  tiles : Tiles Piece.base Piece.stop pieces at_
    (at_ + (cases.length * c.t.switchCase.code.length + c.t.goto.code.length))
  copies : ∀ p ∈ pieces, c.Copies p
  chain : ∀ k value pc, cases[k]? = some (value, pc) → ∃ target fills, c.realOf pc = some target ∧
    ⟨at_ + k * c.t.switchCase.code.length, c.t.switchCase, fills⟩ ∈ pieces ∧
    CaseFilled (at_ + k * c.t.switchCase.code.length) selOff target value c.t.switchCase.holes fills
  default : ∃ target, c.realOf dflt = some target ∧
    jumpPiece c.t.goto (at_ + cases.length * c.t.switchCase.code.length) target ∈ pieces

theorem switchPieces_spec {c : Ctx} {selOff dflt at_ : Nat} {cases : List (BitVec 32 × Nat)}
    {pieces : List Piece} (h : switchPieces c selOff dflt at_ cases = .ok pieces)
    (hlt : at_ + (cases.length * c.t.switchCase.code.length + c.t.goto.code.length) < 2 ^ 32)
    (hfrom : c.t.From c.archive) (hgoto : Roomy wordSize c.t.goto)
    (hcase : cases ≠ [] → Roomy wordSize c.t.switchCase) :
    SwitchChain c selOff dflt at_ cases pieces := by
  induction cases generalizing at_ pieces with
  | nil =>
    unfold switchPieces at h
    split at h
    · cases h
    rename_i target htarget
    cases h
    have hend : at_ + ([] : List (BitVec 32 × Nat)).length * c.t.switchCase.code.length =
        at_ := by
      rw [length_nil]
      omega
    refine ⟨⟨rfl, le_add_right _ _, ?_⟩, ?_, ?_, target, htarget, ?_⟩
    · show at_ + c.t.goto.code.length = _
      rw [← add_assoc, hend]
    · intro p hp
      rw [mem_singleton.mp hp]
      exact ⟨jumpPiece_fits hgoto at_ target, hfrom.goto⟩
    · intro k value pc hk
      cases hk
    · rw [hend]
      exact mem_singleton_self _
  | cons e cases ih =>
    obtain ⟨value, pc⟩ := e
    have hmul : ((value, pc) :: cases).length * c.t.switchCase.code.length =
        cases.length * c.t.switchCase.code.length + c.t.switchCase.code.length := by
      rw [length_cons, succ_mul]
    rw [hmul] at hlt
    have hroom := hcase (cons_ne_nil _ _)
    unfold switchPieces at h
    split at h
    · cases h
    rename_i target htarget
    split at h
    · cases h
    rename_i fills hfills
    split at h
    · cases h
    rename_i rest hrest
    cases h
    rw [u32_of_lt (by omega)] at hrest
    have hr := ih hrest (by omega) fun _ => hroom
    have hfilled := caseFills_spec hfills
    refine ⟨⟨rfl, le_add_right _ _, ?_⟩, ?_, ?_, ?_⟩
    · have hsum : at_ + (((value, pc) :: cases).length * c.t.switchCase.code.length +
          c.t.goto.code.length) = at_ + c.t.switchCase.code.length +
            (cases.length * c.t.switchCase.code.length + c.t.goto.code.length) := by
        omega
      rw [hsum]
      exact hr.tiles
    · intro p hp
      rcases mem_cons.mp hp with rfl | hp
      · exact ⟨fits_of_roomy hroom hfilled.all hfilled.sizes, hfrom.switchCase⟩
      · exact hr.copies p hp
    · intro k v t hk
      cases k with
      | zero =>
        cases hk
        rw [zero_mul, add_zero]
        exact ⟨target, fills, htarget, mem_cons_self, hfilled⟩
      | succ k =>
        obtain ⟨target', fills', htarget', hmem, hdone⟩ := hr.chain k v t hk
        have hbase : at_ + (k + 1) * c.t.switchCase.code.length =
            at_ + c.t.switchCase.code.length + k * c.t.switchCase.code.length := by
          rw [succ_mul]
          omega
        rw [hbase]
        exact ⟨target', fills', htarget', mem_cons_of_mem _ hmem, hdone⟩
    · obtain ⟨target', htarget', hmem⟩ := hr.default
      have hbase : at_ + ((value, pc) :: cases).length * c.t.switchCase.code.length =
          at_ + c.t.switchCase.code.length +
            cases.length * c.t.switchCase.code.length := by
        omega
      rw [hbase]
      exact ⟨target', htarget', mem_cons_of_mem _ hmem⟩

/-- The records an instance copies have room. -/
structure InstanceRoomy (m : Method) (archive : Archive) (t : Templates)
    (inst : StencilInstance) : Prop where
  body : (archive.record inst.stencil).code ≠ [] → Roomy fillSize (archive.record inst.stencil)
  default : (archive.record inst.stencil).code = [] → Roomy wordSize t.goto
  chain : (archive.record inst.stencil).code = [] → ∀ sw,
    parseSwitch m (codeAt m inst.rbcPcStart) = some sw → sw.cases ≠ [] →
    Roomy wordSize t.switchCase

/-- The pieces of an instance. -/
structure InstanceDone (c : Ctx) (inst : StencilInstance) (real : Nat) (pieces : List Piece) :
    Prop where
  body : (c.archive.record inst.stencil).code ≠ [] → ∃ fills,
    ⟨real, c.archive.record inst.stencil, fills⟩ ∈ pieces ∧
    HolesFilled c inst real (c.archive.record inst.stencil).holes inst.patchValues fills
  switch : (c.archive.record inst.stencil).code = [] → ∃ sw,
    parseSwitch c.m (codeAt c.m inst.rbcPcStart) = some sw ∧ ∃ chain, (∀ p ∈ chain, p ∈ pieces) ∧
      SwitchChain c (c.regOffset (codeAt c.m inst.rbcPcStart).aReg + kPayloadDelta)
        sw.defaultTarget real sw.cases chain

theorem InstanceDone.mono {c : Ctx} {inst : StencilInstance} {real : Nat} {ps qs : List Piece}
    (h : InstanceDone c inst real ps) (hsub : ∀ p ∈ ps, p ∈ qs) : InstanceDone c inst real qs := by
  refine ⟨fun hcode => ?_, fun hcode => ?_⟩
  · obtain ⟨fills, hmem, hfilled⟩ := h.body hcode
    exact ⟨fills, hsub _ hmem, hfilled⟩
  · obtain ⟨sw, hparse, chain, hchain, hdone⟩ := h.switch hcode
    exact ⟨sw, hparse, chain, fun p hp => hsub p (hchain p hp), hdone⟩

theorem instancePieces_spec {c : Ctx} {inst : StencilInstance} {l : InstLayout} {rt rt' : Runtime}
    {ps : List Piece} (h : instancePieces c inst l rt = .ok (ps, rt'))
    (hsized : Sized c.m c.archive c.t inst l.size l.sw) (hlt : l.stop < 2 ^ 32)
    (hfrom : c.t.From c.archive) (hroomy : InstanceRoomy c.m c.archive c.t inst) :
    Tiles Piece.base Piece.stop ps l.real l.stop ∧ (∀ p ∈ ps, c.Copies p) ∧
      InstanceDone c inst l.real ps := by
  have hsize := hsized.size
  unfold InstLayout.stop at hlt ⊢
  unfold trueSize at hsize
  unfold instancePieces at h
  dsimp only at h
  split at h
  · rename_i hcode
    obtain ⟨sw, hsw, hparse⟩ := hsized.switch hcode
    rw [if_neg (not_not.mpr hcode), hparse] at hsize
    dsimp only at hsize
    split at h
    · cases h
    rename_i pieces hpieces
    cases h
    rw [hsw, Option.getD_some] at hpieces
    have hdone := switchPieces_spec hpieces (by omega) hfrom (hroomy.default hcode)
      (hroomy.chain hcode sw hparse)
    rw [hsize]
    exact ⟨hdone.tiles, hdone.copies, fun hne => absurd hcode hne,
      fun _ => ⟨sw, hparse, ps, fun p hp => hp, hdone⟩⟩
  · rename_i hcode
    rw [if_pos hcode] at hsize
    split at h
    · cases h
    rename_i fills rt₁ hfills
    cases h
    have hfilled := patchHoles_spec hfills
    refine ⟨⟨rfl, le_add_right _ _, ?_⟩, ?_, fun _ => ?_, fun hempty => absurd hempty hcode⟩
    · show _ + _ = _
      rw [hsize]
    · intro p hp
      rw [mem_singleton.mp hp]
      exact ⟨fits_of_roomy (hroomy.body hcode) hfilled.all hfilled.sizes, record_mem hcode⟩
    · exact ⟨fills, mem_singleton_self _, hfilled⟩

/-- **The instances.**  Their pieces tile the part of the buffer that was laid out for
them. -/
theorem allInstances_spec {c : Ctx} {insts : List StencilInstance} {ls : List InstLayout}
    {lo hi : Nat} {rt rt' : Runtime} {ps : List Piece}
    (h : allInstances c (insts.zip ls) rt = .ok (ps, rt'))
    (hsized : List.Forall₂ (fun inst l => Sized c.m c.archive c.t inst l.size l.sw) insts ls)
    (htiles : Tiles InstLayout.real InstLayout.stop ls lo hi) (hlt : hi < 2 ^ 32)
    (hfrom : c.t.From c.archive)
    (hroomy : ∀ inst ∈ insts, InstanceRoomy c.m c.archive c.t inst) :
    Tiles Piece.base Piece.stop ps lo hi ∧ (∀ p ∈ ps, c.Copies p) ∧
      List.Forall₂ (fun inst l => InstanceDone c inst l.real ps) insts ls := by
  induction hsized generalizing lo rt ps with
  | nil =>
    cases h
    refine ⟨htiles, fun p hp => ?_, List.Forall₂.nil⟩
    cases hp
  | @cons inst l insts ls hone hrest ih =>
    obtain ⟨hstart, _, htail⟩ := htiles
    rw [zip_cons_cons] at h
    unfold allInstances at h
    split at h
    · cases h
    rename_i ps₁ rt₁ hfirst
    split at h
    · cases h
    rename_i ps₂ rt₂ hothers
    cases h
    have hle := htail.le
    obtain ⟨ht₁, hf₁, hd₁⟩ := instancePieces_spec hfirst hone (by omega) hfrom
      (hroomy inst mem_cons_self)
    obtain ⟨ht₂, hf₂, hd₂⟩ := ih hothers htail fun i hi => hroomy i (mem_cons_of_mem inst hi)
    rw [hstart] at ht₁
    refine ⟨ht₁.append ht₂, ?_, ?_⟩
    · intro p hp
      rcases mem_append.mp hp with hp | hp
      · exact hf₁ p hp
      · exact hf₂ p hp
    · refine List.Forall₂.cons (hd₁.mono fun p hp => mem_append_left ps₂ hp) ?_
      exact hd₂.imp fun i k hd => hd.mono fun p hp => mem_append_right ps₁ hp

/-- The stub of an entry jumps to the instance of its instruction. -/
def EntryDone (c : Ctx) (pc : Nat) (p : Piece × CodeEntry) : Prop :=
  p.2.rbcPc = pc ∧ ∃ target, c.realOf pc = some target ∧
    p.1 = jumpPiece c.t.entry p.2.nativeOffset target

theorem handlerPieces_spec {c : Ctx} {at_ : Nat} {pcs : List Nat}
    {ps : List (Piece × CodeEntry)} (h : handlerPieces c at_ pcs = .ok ps)
    (hsmall : c.t.entry.code.length < 2 ^ 32)
    (hlt : at_ + pcs.length * c.t.entry.code.length < 2 ^ 32) :
    List.Forall₂ (EntryDone c) pcs ps ∧ Tiles Piece.base Piece.stop (ps.map Prod.fst) at_
        (at_ + pcs.length * c.t.entry.code.length) := by
  induction pcs generalizing at_ ps with
  | nil =>
    cases h
    refine ⟨List.Forall₂.nil, ?_⟩
    show at_ = at_ + 0 * c.t.entry.code.length
    omega
  | cons pc pcs ih =>
    have hmul : (pc :: pcs).length * c.t.entry.code.length =
        pcs.length * c.t.entry.code.length + c.t.entry.code.length := by
      rw [length_cons, succ_mul]
    rw [hmul] at hlt ⊢
    unfold handlerPieces at h
    split at h
    · cases h
    rename_i p hp
    split at h
    · cases h
    rename_i rest hrest
    cases h
    rw [u32_of_lt hsmall, u32_of_lt (by omega)] at hrest
    obtain ⟨hall, htiles⟩ := ih hrest (by omega)
    unfold entryPiece at hp
    split at hp
    · cases hp
    rename_i target htarget
    cases hp
    refine ⟨List.Forall₂.cons ⟨rfl, target, htarget, rfl⟩ hall, rfl, le_add_right _ _, ?_⟩
    have hsum : at_ + (pcs.length * c.t.entry.code.length + c.t.entry.code.length) =
        at_ + c.t.entry.code.length + pcs.length * c.t.entry.code.length := by
      omega
    rw [hsum]
    exact htiles

/-- **The entry stubs.** -/
theorem entryPieces_spec {c : Ctx} {ps : List (Piece × CodeEntry)}
    (h : entryPieces c = .ok ps) (hlt : entryBytes c.plan c.t < 2 ^ 32) :
    List.Forall₂ (EntryDone c) (0 :: handlerPcs c.plan) ps ∧
      Tiles Piece.base Piece.stop (ps.map Prod.fst) 0 (entryBytes c.plan c.t) := by
  have hbytes : entryBytes c.plan c.t = c.t.entry.code.length +
      (handlerPcs c.plan).length * c.t.entry.code.length := by
    rw [entryBytes, add_mul, one_mul]
  rw [hbytes] at hlt ⊢
  have hsmall : c.t.entry.code.length < 2 ^ 32 := by omega
  unfold entryPieces at h
  split at h
  · cases h
  rename_i target htarget
  split at h
  · cases h
  rename_i rest hrest
  cases h
  rw [u32_of_lt hsmall] at hrest
  obtain ⟨hall, htiles⟩ := handlerPieces_spec hrest hsmall hlt
  refine ⟨List.Forall₂.cons ⟨rfl, target, htarget, rfl⟩ hall, rfl, zero_le _, ?_⟩
  show Tiles Piece.base Piece.stop _ (0 + c.t.entry.code.length) _
  rw [zero_add]
  exact htiles

/-- The thunk of a point holds its id and its site and jumps to the exit. -/
def ThunkDone (c : Ctx) (q : RealDeoptPoint) (p : Piece) : Prop :=
  p.base = q.thunkOffset ∧ p.record = c.t.thunk ∧ ∃ h₀ h₁ h₂, c.t.thunk.holes = [h₀, h₁, h₂] ∧
    p.fills = [wordFill h₀ (word q.deoptId), wordFill h₁ (word q.nativeOffset),
      relFill q.thunkOffset c.layout.exitOffset h₂]

theorem thunkPieces_spec {c : Ctx} {points : List RealDeoptPoint} {ps : List Piece}
    (h : thunkPieces c points = .ok ps) : List.Forall₂ (ThunkDone c) points ps := by
  induction points generalizing ps with
  | nil =>
    cases h
    exact List.Forall₂.nil
  | cons q points ih =>
    unfold thunkPieces at h
    split at h
    · cases h
    rename_i p hp
    split at h
    · cases h
    rename_i rest hrest
    cases h
    unfold thunkPiece at hp
    split at hp
    · rename_i h₀ h₁ h₂ hholes
      cases hp
      exact List.Forall₂.cons ⟨rfl, rfl, h₀, h₁, h₂, hholes, rfl⟩ (ih hrest)
    · cases hp

theorem ThunkDone.fits {c : Ctx} {q : RealDeoptPoint} {p : Piece} (h : ThunkDone c q p)
    (hroomy : Roomy wordSize c.t.thunk) : p.Fits := by
  obtain ⟨_, hrecord, h₀, h₁, h₂, hholes, hfills⟩ := h
  rw [← hrecord] at hroomy
  refine fits_of_roomy hroomy ?_ fun f hf => ?_
  · rw [hrecord, hholes, hfills]
    rfl
  rw [hfills] at hf
  simp only [mem_cons, not_mem_nil, or_false] at hf
  rcases hf with rfl | rfl | rfl
  · rfl
  · rfl
  · rfl

/-- The thunks lie where their points were placed. -/
theorem thunks_tile {c : Ctx} {points : List RealDeoptPoint} {ps : List Piece} {lo hi : Nat}
    (h : List.Forall₂ (ThunkDone c) points ps)
    (htiles : Tiles RealDeoptPoint.thunkOffset
      (fun q => q.thunkOffset + c.t.thunk.code.length) points lo hi) :
    Tiles Piece.base Piece.stop ps lo hi := by
  refine htiles.of_forall₂ (h.imp fun q p hthunk => ?_)
  obtain ⟨hbase, hrecord, _⟩ := hthunk
  rw [Piece.stop, hbase, hrecord]
  exact ⟨rfl, rfl⟩

end B2Compiler.Instantiate
