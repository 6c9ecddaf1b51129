import B2Compiler.Codegen.InstantiateStages

/-!
# Instantiation is exact

The executed block is a sequence of copies of archive records.  Outside the declared
holes it has the bytes of the archive, every displacement lands on the instance, the
thunk or the exit it stands for, and the pc map finds the instance of every native
offset.

The instantiator writes four bytes into a hole (eight for a constant payload or a
helper address) whatever width the hole declares, and neither it nor the validation
looks at where a hole of a template ends or whether two holes meet.  The result is exact
for the archives whose holes have the room.
-/

namespace B2Compiler.Instantiate

open Rbc List Bool
open Baseline
open Interp (Runtime)
open Codegen (SwitchCases parseSwitch le32)
open Lib.X86 (Byte)
open Lib.Tiling

/-- The records a plan copies have room for what is put into their holes, and the method
fits into 32-bit offsets. -/
structure RoomyFor (m : Method) (plan : StencilPlan) (archive : Archive) (t : Templates) :
    Prop where
  entry : Roomy wordSize t.entry
  instances : ∀ inst ∈ plan.instances, InstanceRoomy m archive t inst
  thunk : plan.deoptPoints ≠ [] → Roomy wordSize t.thunk
  size : fullSize m plan archive t < 2 ^ 32

/-- The same with the templates of the archive. -/
def HasRoom (m : Method) (plan : StencilPlan) (set : StencilSet) (archive : Archive) : Prop :=
  ∀ t, templatesOf set archive = .ok t → RoomyFor m plan archive t

/-! ## What exact means -/

/-- A displacement to the instance that starts at an instruction. -/
def Reaches (code : CompiledCode) (pos pc : Nat) : Prop :=
  ∃ e ∈ code.pcMap, e.rbcPc = pc ∧ Lands code.block pos e.nativeOffset

/-- A displacement to the thunk of a deoptimization point. -/
def Deopts (code : CompiledCode) (pos : Nat) (which : RealDeoptPoint → Prop) : Prop :=
  ∃ q ∈ code.deoptPoints, which q ∧ Lands code.block pos q.thunkOffset

def CopiedTo (s : Staged) (r : ArchiveRecord) (base : Nat) : Prop :=
  ∃ p ∈ s.pieces, p.base = base ∧ p.record = r

/-- An instance with a record: its branches reach the instances they name, its
deoptimizations the thunks of their points. -/
structure BodyExact (c : Ctx) (s : Staged) (code : CompiledCode) (inst : StencilInstance)
    (e : RealPcEntry) : Prop where
  copied : CopiedTo s (c.archive.record inst.stencil) e.nativeOffset
  paired : (planPairs (c.archive.record inst.stencil).holes inst.patchValues).map Prod.fst =
    (c.archive.record inst.stencil).holes.filter fun h => h.tag = .plan
  branches : ∀ h pv, (h, pv) ∈ planPairs (c.archive.record inst.stencil).holes inst.patchValues →
    h.source = .branchTarget → Reaches code (e.nativeOffset + h.codeOffset.toNat) pv.value
  deopts : ∀ h pv, (h, pv) ∈ planPairs (c.archive.record inst.stencil).holes inst.patchValues →
    h.source = .deoptIdSource →
    Deopts code (e.nativeOffset + h.codeOffset.toNat) fun q => q.deoptId = u32 pv.value
  traps : ∀ h ∈ (c.archive.record inst.stencil).holes, h.tag = .layout →
    Deopts code (e.nativeOffset + h.codeOffset.toNat) fun q => q.rbcPc = inst.rbcPcStart

/-- An expanded switch: case number `k` compares with its value and jumps to the instance
of its target, the jump behind the cases goes to the default. -/
structure SwitchExact (c : Ctx) (s : Staged) (code : CompiledCode) (sw : SwitchCases)
    (e : RealPcEntry) : Prop where
  copied : ∀ k, k < sw.cases.length →
    CopiedTo s c.t.switchCase (e.nativeOffset + k * c.t.switchCase.code.length)
  values : ∀ k value pc, sw.cases[k]? = some (value, pc) → ∀ h ∈ c.t.switchCase.holes,
    h.tag = .switchMatch →
    (code.block.drop (e.nativeOffset + k * c.t.switchCase.code.length +
      h.codeOffset.toNat)).take 4 = le32 value
  targets : ∀ k value pc, sw.cases[k]? = some (value, pc) → ∀ h ∈ c.t.switchCase.holes,
    h.tag = .switchTarget →
    Reaches code (e.nativeOffset + k * c.t.switchCase.code.length + h.codeOffset.toNat) pc
  defaultCopied : CopiedTo s c.t.goto
    (e.nativeOffset + sw.cases.length * c.t.switchCase.code.length)
  default : ∀ h ∈ c.t.goto.holes,
    Reaches code (e.nativeOffset + sw.cases.length * c.t.switchCase.code.length +
      h.codeOffset.toNat) sw.defaultTarget

/-- A deoptimization point: its site is the instance of its instruction, and its thunk
holds its id and its site and jumps to the exit. -/
structure PointExact (c : Ctx) (s : Staged) (code : CompiledCode) (p : DeoptPoint)
    (q : RealDeoptPoint) : Prop where
  deoptId : q.deoptId = p.deoptId
  rbcPc : q.rbcPc = p.rbcPc
  site : ∃ e ∈ code.pcMap, e.rbcPc = q.rbcPc ∧ e.nativeOffset = q.nativeOffset
  copied : CopiedTo s c.t.thunk q.thunkOffset
  thunk : ∃ h₀ h₁ h₂, c.t.thunk.holes = [h₀, h₁, h₂] ∧
    (code.block.drop (q.thunkOffset + h₀.codeOffset.toNat)).take 4 = le32 (word q.deoptId) ∧
    (code.block.drop (q.thunkOffset + h₁.codeOffset.toNat)).take 4 = le32 (word q.nativeOffset) ∧
    Lands code.block (q.thunkOffset + h₂.codeOffset.toNat) c.layout.exitOffset

/-- The code of a method is what its plan and the archive say. -/
structure Exact (c : Ctx) (s : Staged) (code : CompiledCode) : Prop where
  /-- Copies of archive records follow each other over the whole block. -/
  tiles : Tiles Piece.base Piece.stop s.pieces 0 code.block.length
  archived : ∀ p ∈ s.pieces, p.record ∈ c.archive.records
  /-- Every byte that is written lies inside a declared hole, and the hole inside the
  copy. -/
  written : ∀ p ∈ s.pieces, ∀ f ∈ p.fills, f.hole ∈ p.record.holes ∧
    (f.write p.base).pos = p.base + f.hole.codeOffset.toNat ∧
    f.data.length ≤ f.hole.width.toNat ∧
    f.hole.codeOffset.toNat + f.data.length ≤ p.record.code.length
  /-- What was written is there. -/
  filled : ∀ p ∈ s.pieces, ∀ f ∈ p.fills,
    (code.block.drop (p.base + f.hole.codeOffset.toNat)).take f.data.length = f.data
  /-- A byte outside the declared holes is the byte of the record. -/
  untouched : ∀ p ∈ s.pieces, ∀ k, k < p.record.code.length →
    (∀ h ∈ p.record.holes, ¬(h.codeOffset.toNat ≤ k ∧ k < h.codeOffset.toNat + h.width.toNat)) →
    code.block[p.base + k]? = p.record.code[k]?
  /-- The pc map lists the instances, each once, with the ranges of their code. -/
  pcs : code.pcMap.map RealPcEntry.rbcPc = c.plan.instances.map StencilInstance.rbcPcStart
  once : (code.pcMap.map RealPcEntry.rbcPc).Nodup
  ranges : Tiles RealPcEntry.nativeOffset RealPcEntry.nativeEnd code.pcMap
    (entryBytes c.plan c.t) c.layout.thunkArea
  lookup : ∀ e ∈ code.pcMap, ∀ off, e.nativeOffset ≤ off → off < e.nativeEnd →
    code.rbcPcAt off = e.rbcPc
  /-- Method entry and handlers. -/
  entryPcs : code.entries.map CodeEntry.rbcPc = 0 :: handlerPcs c.plan
  entryHole : ∃ h, c.t.entry.holes = [h]
  entries : ∀ e ∈ code.entries, CopiedTo s c.t.entry e.nativeOffset ∧
    ∀ h ∈ c.t.entry.holes, Reaches code (e.nativeOffset + h.codeOffset.toNat) e.rbcPc
  bodies : ∀ (i : Nat) inst e, c.plan.instances[i]? = some inst → code.pcMap[i]? = some e →
    (c.archive.record inst.stencil).code ≠ [] → BodyExact c s code inst e
  switches : ∀ (i : Nat) inst e, c.plan.instances[i]? = some inst → code.pcMap[i]? = some e →
    (c.archive.record inst.stencil).code = [] →
    ∃ sw, parseSwitch c.m (codeAt c.m inst.rbcPcStart) = some sw ∧ SwitchExact c s code sw e
  points : List.Forall₂ (PointExact c s code) c.plan.deoptPoints code.deoptPoints
  exit : CopiedTo s c.t.exit c.layout.exitOffset

/-- What the stages leave behind. -/
structure Assembled (c : Ctx) (s : Staged) : Prop where
  tiles : Tiles Piece.base Piece.stop s.pieces 0 c.layout.totalSize
  copies : ∀ p ∈ s.pieces, c.Copies p
  entries : ∃ es : List (Piece × CodeEntry), s.entries = es.map Prod.snd ∧
    (∀ e ∈ es, e.1 ∈ s.pieces) ∧ List.Forall₂ (EntryDone c) (0 :: handlerPcs c.plan) es
  instances : List.Forall₂ (fun inst l => InstanceDone c inst l.real s.pieces) c.plan.instances
    c.layout.insts
  thunks : ∃ ts : List Piece, (∀ p ∈ ts, p ∈ s.pieces) ∧ List.Forall₂ (ThunkDone c) c.points ts
  exit : ⟨c.layout.exitOffset, c.t.exit, []⟩ ∈ s.pieces

/-- What is known of a context before anything is copied. -/
structure Prepared (c : Ctx) : Prop where
  templates : c.t.From c.archive
  entryHole : ∃ h, c.t.entry.holes = [h]
  placed : Placed c.m c.plan c.archive c.t c.layout
  room : RoomyFor c.m c.plan c.archive c.t
  points : List.Forall₂ (PointOf c.plan c.layout.insts) c.plan.deoptPoints c.points
  thunks : Tiles RealDeoptPoint.thunkOffset (fun q => q.thunkOffset + c.t.thunk.code.length)
    c.points c.layout.thunkArea c.layout.exitOffset

section Related

variable {α β : Type} {R : α → β → Prop} {l : List α} {l' : List β}

theorem forall₂_at (h : List.Forall₂ R l l') {i : Nat} {a : α} (ha : l[i]? = some a) :
    ∃ b, l'[i]? = some b ∧ R a b := by
  induction h generalizing i with
  | nil => cases ha
  | @cons x y _ _ hxy _ ih =>
    cases i with
    | zero =>
      cases ha
      exact ⟨y, rfl, hxy⟩
    | succ i => exact ih ha

theorem forall₂_mem (h : List.Forall₂ R l l') {b : β} (hb : b ∈ l') : ∃ a ∈ l, R a b := by
  obtain ⟨i, hi⟩ := mem_iff_getElem?.mp hb
  obtain ⟨a, ha, hab⟩ := forall₂_at h.flip hi
  exact ⟨a, mem_of_getElem? ha, hab⟩

end Related

theorem stage_assembled {c : Ctx} {s : Staged} {rt rt' : Runtime}
    (h : stage c rt = .ok (s, rt')) (hprep : Prepared c) : Assembled c s := by
  have hexit := hprep.placed.exit
  have htotal := hprep.placed.total
  have hsmall := hprep.placed.small
  have hbodies := hprep.placed.insts.le
  unfold kMaxCodeBytes at hsmall
  unfold stage at h
  split at h
  · cases h
  rename_i es hes
  split at h
  · cases h
  rename_i bodies rt₁ hinsts
  split at h
  · cases h
  rename_i ts hts
  cases h
  obtain ⟨hentries, hetiles⟩ := entryPieces_spec hes (by omega)
  obtain ⟨hbtiles, hbcopies, hdone⟩ := allInstances_spec hinsts hprep.placed.sized
    hprep.placed.insts (by omega) hprep.templates hprep.room.instances
  have hthunks := thunkPieces_spec hts
  have httiles := thunks_tile hthunks hprep.thunks
  have hxtiles : Tiles Piece.base Piece.stop [⟨c.layout.exitOffset, c.t.exit, []⟩]
      c.layout.exitOffset c.layout.totalSize := by
    refine ⟨rfl, Nat.le_add_right _ _, ?_⟩
    exact htotal.symm
  have hecopies : ∀ e ∈ es, c.Copies e.1 := by
    intro e he
    obtain ⟨pc, _, _, target, _, hpiece⟩ := forall₂_mem hentries he
    rw [hpiece]
    exact ⟨jumpPiece_fits hprep.room.entry _ target, hprep.templates.entry⟩
  have htcopies : ∀ p ∈ ts, c.Copies p := by
    intro p hp
    obtain ⟨q, hq, hthunk⟩ := forall₂_mem hthunks hp
    obtain ⟨d, hd, _⟩ := forall₂_mem hprep.points hq
    have hroomy := hprep.room.thunk (ne_nil_of_mem hd)
    refine ⟨hthunk.fits hroomy, ?_⟩
    rw [hthunk.2.1]
    exact hprep.templates.thunk
  have hxcopies : c.Copies ⟨c.layout.exitOffset, c.t.exit, []⟩ := by
    refine ⟨⟨fun f hf => ?_, fun f hf => ?_, List.Pairwise.nil⟩, hprep.templates.exit⟩
    · cases hf
    · cases hf
  refine ⟨hetiles.append (hbtiles.append (httiles.append hxtiles)), ?_,
    ⟨es, rfl, ?_, hentries⟩, ?_, ⟨ts, ?_, hthunks⟩, ?_⟩
  · intro p hp
    simp only [mem_append, mem_singleton] at hp
    rcases hp with hp | hp | hp | rfl
    · obtain ⟨e, he, rfl⟩ := mem_map.mp hp
      exact hecopies e he
    · exact hbcopies p hp
    · exact htcopies p hp
    · exact hxcopies
  · intro e he
    exact mem_append_left _ (mem_map_of_mem he)
  · exact hdone.imp fun inst l hd => hd.mono fun p hp =>
      mem_append_right _ (mem_append_left _ hp)
  · intro p hp
    exact mem_append_right _ (mem_append_right _ (mem_append_left _ hp))
  · exact mem_append_right _ (mem_append_right _ (mem_append_right _ (mem_singleton_self _)))

/-! ## Reading the block -/

section Read

variable {c : Ctx} {s : Staged} {index : Nat}

theorem realOf_le (hplaced : Placed c.m c.plan c.archive c.t c.layout) {pc target : Nat}
    (h : c.realOf pc = some target) : target ≤ c.layout.totalSize := by
  obtain ⟨i, inst, l, _, hl, _, rfl⟩ := realOfPc_spec h
  have hbound := hplaced.insts.bounds (mem_of_getElem? hl)
  have hexit := hplaced.exit
  have htotal := hplaced.total
  omega

variable {p : Piece} {h : ArchiveHole}

variable (hprep : Prepared c) (hdone : Assembled c s)
include hprep hdone

/-- A displacement to the offset of an instruction reaches its instance. -/
theorem reaches_of_fill {pc target : Nat} (hp : p ∈ s.pieces) (htarget : c.realOf pc = some target)
    (hf : relFill p.base target h ∈ p.fills) :
    Reaches (publish c index s) (p.base + h.codeOffset.toNat) pc := by
  obtain ⟨i, inst, l, hinst, hl, hstart, hreal⟩ := realOfPc_spec htarget
  have hlands := lands_of_fill hdone.tiles (fun q hq => (hdone.copies q hq).fits)
    hprep.placed.small hp hf (realOf_le hprep.placed htarget)
  refine ⟨_, mem_of_getElem? (getElem?_realPcMap hinst hl), hstart, ?_⟩
  show Lands _ _ l.real
  rw [hreal]
  exact hlands

theorem deopts_of_fill {q : RealDeoptPoint}
    {which : RealDeoptPoint → Prop} (hp : p ∈ s.pieces) (hq : q ∈ c.points) (hwhich : which q)
    (hf : relFill p.base q.thunkOffset h ∈ p.fills) :
    Deopts (publish c index s) (p.base + h.codeOffset.toNat) which := by
  have hbound := (hprep.thunks.bounds hq).2
  have htotal := hprep.placed.total
  refine ⟨q, hq, hwhich, ?_⟩
  exact lands_of_fill hdone.tiles (fun r hr => (hdone.copies r hr).fits) hprep.placed.small hp hf
    (by omega)

theorem word_of_fill {v : BitVec 32} (hp : p ∈ s.pieces) (hf : wordFill h v ∈ p.fills) :
    ((publish c index s).block.drop (p.base + h.codeOffset.toNat)).take 4 = le32 v := by
  have hsmall := hprep.placed.small
  unfold kMaxCodeBytes at hsmall
  exact blockOf_filled hdone.tiles (fun r hr => (hdone.copies r hr).fits) (by omega) hp hf

theorem body_exact
    (hvalues : ∀ inst ∈ c.plan.instances, ∀ v ∈ inst.patchValues, v.source = .branchTarget →
      v.value < 2 ^ 32)
    {inst : StencilInstance} (hinst : inst ∈ c.plan.instances) {e : RealPcEntry}
    (hbody : InstanceDone c inst e.nativeOffset s.pieces)
    (hcode : (c.archive.record inst.stencil).code ≠ []) :
    BodyExact c s (publish c index s) inst e := by
  obtain ⟨fills, hmem, hfilled⟩ := hbody.body hcode
  refine ⟨⟨_, hmem, rfl, rfl⟩, hfilled.paired, ?_, ?_, ?_⟩
  · intro h pv hpair hsrc
    obtain ⟨target, htarget, hf⟩ := hfilled.branches h pv hpair hsrc
    obtain ⟨_, hpv, hsame⟩ := mem_planPairs hpair
    rw [hsrc] at hsame
    rw [u32_of_lt (hvalues inst hinst pv hpv hsame)] at htarget
    exact reaches_of_fill hprep hdone hmem htarget hf
  · intro h pv hpair hsrc
    obtain ⟨q, hq, hf⟩ := hfilled.deopts h pv hpair hsrc
    refine deopts_of_fill hprep hdone hmem (mem_of_find?_eq_some hq) ?_ hf
    simpa using find?_some hq
  · intro h hh htag
    obtain ⟨q, hq, hf⟩ := hfilled.traps h hh htag
    refine deopts_of_fill hprep hdone hmem (mem_of_find?_eq_some hq) ?_ hf
    simpa using find?_some hq

theorem switch_exact {inst : StencilInstance}
    {e : RealPcEntry} (hbody : InstanceDone c inst e.nativeOffset s.pieces)
    (hcode : (c.archive.record inst.stencil).code = []) :
    ∃ sw, parseSwitch c.m (codeAt c.m inst.rbcPcStart) = some sw ∧
      SwitchExact c s (publish c index s) sw e := by
  obtain ⟨sw, hparse, chain, hsub, hchain⟩ := hbody.switch hcode
  refine ⟨sw, hparse, ?_, ?_, ?_, ?_, ?_⟩
  · intro k hk
    have hget := getElem?_eq_getElem hk
    obtain ⟨target, fills, _, hmem, _⟩ := hchain.chain k _ _ hget
    exact ⟨_, hsub _ hmem, rfl, rfl⟩
  · intro k value pc hk h hh htag
    obtain ⟨target, fills, _, hmem, hfilled⟩ := hchain.chain k value pc hk
    exact word_of_fill hprep hdone (hsub _ hmem) (hfilled.values h hh htag)
  · intro k value pc hk h hh htag
    obtain ⟨target, fills, htarget, hmem, hfilled⟩ := hchain.chain k value pc hk
    exact reaches_of_fill hprep hdone (hsub _ hmem) htarget (hfilled.targets h hh htag)
  · obtain ⟨target, _, hmem⟩ := hchain.default
    exact ⟨_, hsub _ hmem, rfl, rfl⟩
  · intro h hh
    obtain ⟨target, htarget, hmem⟩ := hchain.default
    exact reaches_of_fill hprep hdone (hsub _ hmem) htarget (mem_map_of_mem hh)

theorem entry_exact {e : CodeEntry} (he : e ∈ s.entries) : CopiedTo s c.t.entry e.nativeOffset ∧
      ∀ h ∈ c.t.entry.holes,
        Reaches (publish c index s) (e.nativeOffset + h.codeOffset.toNat) e.rbcPc := by
  obtain ⟨es, hes, hsub, hall⟩ := hdone.entries
  rw [hes] at he
  obtain ⟨r, hr, rfl⟩ := mem_map.mp he
  obtain ⟨pc, _, hpc, target, htarget, hpiece⟩ := forall₂_mem hall hr
  have hmem := hsub r hr
  rw [hpiece] at hmem
  refine ⟨⟨_, hmem, rfl, rfl⟩, fun h hh => ?_⟩
  rw [hpc]
  exact reaches_of_fill hprep hdone hmem htarget (mem_map_of_mem hh)

theorem point_exact {p : DeoptPoint}
    {q : RealDeoptPoint} (hq : q ∈ c.points) (hpoint : PointOf c.plan c.layout.insts p q) :
    PointExact c s (publish c index s) p q := by
  obtain ⟨ts, hsub, hall⟩ := hdone.thunks
  obtain ⟨k, hk⟩ := mem_iff_getElem?.mp hq
  obtain ⟨r, hr, hbase, hrecord, h₀, h₁, h₂, hholes, hfills⟩ := forall₂_at hall hk
  have hmem := hsub r (mem_of_getElem? hr)
  obtain ⟨i, inst, l, hinst, hl, hstart, hreal⟩ := realOfPc_spec hpoint.native
  have htotal := hprep.placed.total
  refine ⟨hpoint.deoptId, hpoint.rbcPc, ?_, ⟨r, hmem, hbase, hrecord⟩, h₀, h₁, h₂, hholes,
    ?_, ?_, ?_⟩
  · refine ⟨_, mem_of_getElem? (getElem?_realPcMap hinst hl), ?_, hreal⟩
    rw [hpoint.rbcPc]
    exact hstart
  · rw [← hbase]
    exact word_of_fill hprep hdone hmem (by rw [hfills]; simp)
  · rw [← hbase]
    exact word_of_fill hprep hdone hmem (by rw [hfills]; simp)
  · rw [← hbase]
    refine lands_of_fill hdone.tiles (fun r hr => (hdone.copies r hr).fits) hprep.placed.small
      hmem ?_ (by omega)
    rw [hbase, hfills]
    simp

end Read

/-! ## The result -/

theorem exact_of_assembled {c : Ctx} {s : Staged} (hprep : Prepared c) (hdone : Assembled c s)
    (hstarts : (c.plan.instances.map StencilInstance.rbcPcStart).Nodup)
    (hvalues : ∀ inst ∈ c.plan.instances, ∀ v ∈ inst.patchValues, v.source = .branchTarget →
      v.value < 2 ^ 32) (index : Nat) : Exact c s (publish c index s) := by
  have hsmall := hprep.placed.small
  have hexit := hprep.placed.exit
  have htotal := hprep.placed.total
  unfold kMaxCodeBytes at hsmall
  have hfits : ∀ p ∈ s.pieces, p.Fits := fun p hp => (hdone.copies p hp).fits
  have hlen : c.plan.instances.length = c.layout.insts.length := hprep.placed.sized.length_eq
  have hpcs := realPcMap_pcs hlen
  have hranges := realPcMap_tiles hlen hprep.placed.insts (by omega)
  have hinstance : ∀ (i : Nat) inst e, c.plan.instances[i]? = some inst →
      (realPcMap c.plan c.layout.insts)[i]? = some e →
      InstanceDone c inst e.nativeOffset s.pieces := by
    intro i inst e hinst he
    obtain ⟨l, hl, hbody⟩ := forall₂_at hdone.instances hinst
    rw [getElem?_realPcMap hinst hl] at he
    cases he
    exact hbody
  refine
    { tiles := ?_
      archived := fun p hp => (hdone.copies p hp).archived
      written := ?_
      filled := fun p hp f hf => blockOf_filled hdone.tiles hfits (by omega) hp hf
      untouched := ?_
      pcs := hpcs
      once := ?_
      ranges := hranges
      lookup := ?_
      entryPcs := ?_
      entryHole := hprep.entryHole
      entries := fun e he => entry_exact hprep hdone he
      bodies := ?_
      switches := ?_
      points := ?_
      exit := ⟨_, hdone.exit, rfl, rfl⟩ }
  · have hblock : (publish c index s).block.length = c.layout.totalSize :=
      length_blockOf c.layout.totalSize s.pieces
    rw [hblock]
    exact hdone.tiles
  · intro p hp f hf
    have hstop := (hdone.tiles.bounds hp).2.2
    obtain ⟨hwidth, hroom⟩ := (hfits p hp).room f hf
    exact ⟨(hfits p hp).declared f hf, (hfits p hp).pos hf (by omega), hwidth, hroom⟩
  · intro p hp k hk hout
    refine blockOf_copied hdone.tiles hfits (by omega) hp hk fun f hf hcov => ?_
    have hstop := (hdone.tiles.bounds hp).2.2
    obtain ⟨hwidth, _⟩ := (hfits p hp).room f hf
    obtain ⟨hlo, hhi⟩ := hcov
    rw [(hfits p hp).pos hf (by omega)] at hlo hhi
    have hdata : (f.write p.base).data = f.data := rfl
    rw [hdata] at hhi
    exact hout f.hole ((hfits p hp).declared f hf) ⟨by omega, by omega⟩
  · show ((realPcMap c.plan c.layout.insts).map RealPcEntry.rbcPc).Nodup
    rw [hpcs]
    exact hstarts
  · intro e he off hlo hhi
    obtain ⟨i, hi⟩ := mem_iff_getElem?.mp he
    exact rbcPcAt_eq hranges hi hlo hhi
  · obtain ⟨es, hes, _, hall⟩ := hdone.entries
    have hmap : List.Forall₂ (fun pc e => pc = e) (0 :: handlerPcs c.plan)
        (es.map fun e => e.2.rbcPc) := by
      rw [forall₂_map_right_iff]
      exact hall.imp fun pc e he => he.1.symm
    show s.entries.map CodeEntry.rbcPc = _
    rw [hes, map_map]
    exact (forall₂_eq_eq_eq ▸ hmap).symm
  · intro i inst e hinst he hcode
    exact body_exact hprep hdone hvalues (mem_of_getElem? hinst) (hinstance i inst e hinst he) hcode
  · intro i inst e hinst he hcode
    exact switch_exact hprep hdone (hinstance i inst e hinst he) hcode
  · refine forall₂_iff_zip.mpr ⟨hprep.points.length_eq, fun {p q} hpq => ?_⟩
    exact point_exact hprep hdone (of_mem_zip hpq).2 (forall₂_zip hprep.points hpq)

variable {program : Program} {archive : Archive} {m : Method}

theorem instantiate_stages {index : Nat} {plan : StencilPlan} {set : StencilSet} {env : Env}
    {rt rt' : Runtime} {code : CompiledCode} (hm : program.methods[index]? = some m)
    (h : instantiate program index plan set archive env rt = .ok (code, rt')) :
    ∃ c s, context program m plan set archive env = .ok c ∧ stage c rt = .ok (s, rt') ∧
      code = publish c index s := by
  unfold instantiate at h
  rw [hm] at h
  dsimp only at h
  split at h
  · cases h
  split at h
  · cases h
  rename_i c hc
  split at h
  · cases h
  rename_i s rt₁ hs
  split at h
  · cases h
  · split at h
    · cases h
    · cases h
      exact ⟨c, s, hc, hs, rfl⟩

theorem entryHole_of_valid {set : StencilSet} {t : Templates}
    (hvalid : (validateArchive archive set).ok = true) (ht : templatesOf set archive = .ok t) :
    ∃ h, t.entry.holes = [h] := by
  have hnone : archiveError archive set = none := by
    unfold validateArchive at hvalid
    split at hvalid
    · cases hvalid
    · assumption
  have htemplates : templatesError archive = none := by
    unfold archiveError at hnone
    repeat
      split at hnone
      · cases hnone
    exact (Option.or_eq_none_iff.mp hnone).2
  unfold templatesOf at ht
  split at ht
  · rename_i entry thunk exit switchCase hentry _ _ _
    dsimp only at ht
    split at ht
    · cases ht
    cases ht
    have hone := (Option.or_eq_none_iff.mp htemplates).2
    rw [hentry] at hone
    split at hone
    · cases hone
    · rename_i hlen
      exact length_eq_one_iff.mp (not_not.mp hlen)
  · cases ht

theorem context_prepared {plan : StencilPlan} {set : StencilSet} {env : Env} {c : Ctx}
    (h : context program m plan set archive env = .ok c)
    (hvalid : (validateArchive archive set).ok = true) (hroom : HasRoom m plan set archive) :
    Prepared c ∧ c.plan = plan := by
  unfold context at h
  split at h
  · cases h
  rename_i t ht
  split at h
  · cases h
  rename_i layout hlayout
  split at h
  · cases h
  rename_i points hpoints
  cases h
  have hroomy := hroom t ht
  have hplaced := layoutOf_placed hlayout hroomy.size
  have hexit := hplaced.exit
  have htotal := hplaced.total
  have hsmall := hplaced.small
  unfold kMaxCodeBytes at hsmall
  obtain ⟨hall, htiles⟩ := realPoints_spec hpoints (by omega)
  rw [← hexit] at htiles
  exact ⟨⟨templatesOf_from ht, entryHole_of_valid hvalid ht, hplaced, hroomy, hall, htiles⟩,
    rfl⟩

/-- What instantiation needs of a plan: the instances start at different instructions, and
branch targets are words. -/
theorem compilePlan_targets {index : Nat} {set : StencilSet} {options : CompileOptions}
    {plan : StencilPlan} (hm : program.methods[index]? = some m)
    (h : compilePlan program index set options = .ok plan) :
    (plan.instances.map StencilInstance.rbcPcStart).Nodup ∧
      ∀ inst ∈ plan.instances, ∀ v ∈ inst.patchValues, v.source = .branchTarget →
        v.value < 2 ^ 32 := by
  unfold compilePlan at h
  rw [hm] at h
  dsimp only at h
  split at h
  · obtain ⟨_, live, st, edges, hscan, _, rfl, hok⟩ := planMethod_spec h
    obtain ⟨_, hemitted⟩ := scan_spec hscan (Nat.zero_le _) (fun inst hmem => by cases hmem)
    obtain ⟨htiles, hrange⟩ := tiles_of_check (audited_of_ok hok).tiling
    refine ⟨?_, ?_⟩
    · rw [List.Nodup, pairwise_map]
      refine htiles.pairwise.imp_of_mem fun {a b} ha _ hab => ?_
      have hpos := (hrange a ha).1
      omega
    · intro inst hmem v hv hsrc
      obtain ⟨winner, deoptId, _, _, hfill, _⟩ := (hemitted inst hmem).origin
      rcases fillHoles_branch hfill (fun _ => Nat.zero_le _) hv hsrc with hzero | hbr
      · omega
      · obtain ⟨j, step, _, _, hvalue⟩ := hbr
        rw [hvalue]
        exact (codeAt m (inst.rbcPcStart + j)).imm.isLt
  · cases h

/-- **Instantiation is exact.**  For a plan of the builder and an accepted archive whose
holes have room for what is put into them, code that is returned is a sequence of copies
of archive records, written only inside declared holes; its branches, switch tables,
entry stubs and deoptimization exits land on the instances and thunks they stand for, and
the pc map gives the instruction of every native offset inside an instance. -/
theorem instantiate_exact (program : Program) (index : Nat) (set : StencilSet)
    (options : CompileOptions) (m : Method) (hm : program.methods[index]? = some m)
    (plan : StencilPlan) (hplan : compilePlan program index set options = .ok plan)
    (archive : Archive) (hvalid : (validateArchive archive set).ok = true)
    (hroom : HasRoom m plan set archive) (env : Env) (rt rt' : Runtime) (code : CompiledCode)
    (h : instantiate program index plan set archive env rt = .ok (code, rt')) :
    ∃ c s, context program m plan set archive env = .ok c ∧ stage c rt = .ok (s, rt') ∧
      code = publish c index s ∧ Exact c s code := by
  obtain ⟨c, s, hc, hs, rfl⟩ := instantiate_stages hm h
  obtain ⟨hprep, hsame⟩ := context_prepared hc hvalid hroom
  obtain ⟨hstarts, hvalues⟩ := compilePlan_targets hm hplan
  rw [← hsame] at hstarts hvalues
  exact ⟨c, s, hc, hs, rfl,
    exact_of_assembled hprep (stage_assembled hs hprep) hstarts hvalues index⟩

/-! ## A method that is instantiated -/

/-- An archive for the small stencil set.  The hole of the constant of `iconst` declares
`width` bytes. -/
def smallArchive (width : BitVec 8) : Archive where
  header := { manifestCount := 6 }
  records :=
    [{},
      { name := "iconst", code := replicate 16 0x90
        holes := [{ codeOffset := 3, tag := .stream, source := .insDst, kind := .slotOffset },
          { codeOffset := 8, width := width, source := .insImm }] },
      { name := "iload_ireturn", code := replicate 8 0x91
        holes := [{ codeOffset := 2, source := .frameSlot, kind := .slotOffset }] },
      { name := "iload", code := replicate 8 0x92 },
      { name := "goto", code := [0xE9, 0, 0, 0, 0]
        holes := [{ codeOffset := 1, source := .branchTarget, kind := .branchRel32 }] },
      { name := "ireturn", code := replicate 3 0x93 },
      { name := kInternalEntry, code := [0x55, 0xE9, 0, 0, 0, 0]
        holes := [{ codeOffset := 2, tag := .layout, kind := .branchRel32 }] },
      { name := kInternalDeoptThunk },
      { name := kInternalDeoptExit, code := [0xC3] },
      { name := kInternalSwitchCase }]

def smallTemplates (width : BitVec 8) : Templates :=
  let record (i : Nat) := (smallArchive width).records.getD i {}
  ⟨record 6, record 7, record 8, record 9, record 4⟩

/-- Pages can always be had, and every helper has an address. -/
def freeEnv : Env := ⟨fun _ => some 0, 4096, fun _ => true, fun _ => true⟩

def smallProgram : Program := { methods := [jumpToFused] }

theorem instantiate_exact_jumpToFused : ∃ plan code rt',
    compilePlan smallProgram 0 smallSet {} = .ok plan ∧
      instantiate smallProgram 0 plan smallSet (smallArchive 4) freeEnv
        (Runtime.init smallProgram) = .ok (code, rt') ∧
      ∃ c s, context smallProgram jumpToFused plan smallSet (smallArchive 4) freeEnv = .ok c ∧
        stage c (Runtime.init smallProgram) = .ok (s, rt') ∧ code = publish c 0 s ∧
        Exact c s code := by
  have hrun : (compilePlan smallProgram 0 smallSet {}).toOption.map (fun plan =>
      decide (∀ inst ∈ plan.instances, ((smallArchive 4).record inst.stencil).code ≠ [] ∧
        Roomy fillSize ((smallArchive 4).record inst.stencil)) &&
      decide (plan.deoptPoints = []) &&
      decide (fullSize jumpToFused plan (smallArchive 4) (smallTemplates 4) < 2 ^ 32) &&
      (instantiate smallProgram 0 plan smallSet (smallArchive 4) freeEnv
        (Runtime.init smallProgram)).toOption.isSome) = some true := by
    decide +kernel
  cases hplan : compilePlan smallProgram 0 smallSet {} with
  | error e =>
    rw [hplan] at hrun
    cases hrun
  | ok plan =>
    rw [hplan] at hrun
    have hchecks := Option.some.inj hrun
    simp only [and_eq_true, decide_eq_true_eq] at hchecks
    obtain ⟨⟨⟨hrecords, hpoints⟩, hsize⟩, hdone⟩ := hchecks
    have hroom : HasRoom jumpToFused plan smallSet (smallArchive 4) := by
      intro t ht
      have htemplates : templatesOf smallSet (smallArchive 4) = .ok (smallTemplates 4) := rfl
      rw [htemplates] at ht
      cases ht
      refine ⟨by decide, fun inst hmem => ?_, fun hne => absurd hpoints hne, hsize⟩
      obtain ⟨hcode, hroomy⟩ := hrecords inst hmem
      exact ⟨fun _ => hroomy, fun hempty => absurd hempty hcode, fun hempty => absurd hempty hcode⟩
    cases hinst : instantiate smallProgram 0 plan smallSet (smallArchive 4) freeEnv
        (Runtime.init smallProgram) with
    | error e =>
      rw [hinst] at hdone
      cases hdone
    | ok out =>
      obtain ⟨code, rt'⟩ := out
      exact ⟨plan, code, rt', rfl, hinst,
        instantiate_exact smallProgram 0 smallSet {} jumpToFused rfl plan hplan
          (smallArchive 4) (by decide +kernel) hroom freeEnv _ rt' code hinst⟩

/-- A byte of the block differs from its record although it lies in none of its holes. -/
def spilled (s : Staged) (code : CompiledCode) : Bool :=
  s.pieces.any fun p => (range p.record.code.length).any fun k =>
    (p.record.holes.all fun h =>
      !(h.codeOffset.toNat ≤ k && k < h.codeOffset.toNat + h.width.toNat)) &&
    code.block[p.base + k]? != p.record.code[k]?

theorem not_exact_of_spilled {c : Ctx} {s : Staged} {code : CompiledCode}
    (h : spilled s code = true) : ¬Exact c s code := by
  intro hexact
  simp only [spilled, any_eq_true, mem_range, and_eq_true, all_eq_true, bne_iff_ne] at h
  obtain ⟨p, hp, k, hk, hout, hne⟩ := h
  refine hne (hexact.untouched p hp k hk fun h hh => ?_)
  have hcell := hout h hh
  simp only [not_eq_true', and_eq_false_iff, decide_eq_false_iff_not] at hcell
  omega

/-- A constant hole of one byte: the archive is accepted, and the instantiator writes
over the three bytes behind the hole. -/
theorem instantiate_narrow_hole : ∃ plan c s rt',
    compilePlan smallProgram 0 smallSet {} = .ok plan ∧
      (validateArchive (smallArchive 1) smallSet).ok = true ∧
      instantiate smallProgram 0 plan smallSet (smallArchive 1) freeEnv
        (Runtime.init smallProgram) = .ok (publish c 0 s, rt') ∧
      context smallProgram jumpToFused plan smallSet (smallArchive 1) freeEnv = .ok c ∧
      stage c (Runtime.init smallProgram) = .ok (s, rt') ∧ ¬Exact c s (publish c 0 s) := by
  have hrun : (compilePlan smallProgram 0 smallSet {}).toOption.map (fun plan =>
      (instantiate smallProgram 0 plan smallSet (smallArchive 1) freeEnv
        (Runtime.init smallProgram)).toOption.isSome &&
      ((context smallProgram jumpToFused plan smallSet (smallArchive 1) freeEnv).toOption.any
        fun c => (stage c (Runtime.init smallProgram)).toOption.any
          fun s => spilled s.1 (publish c 0 s.1))) = some true := by
    decide +kernel
  cases hplan : compilePlan smallProgram 0 smallSet {} with
  | error e =>
    rw [hplan] at hrun
    cases hrun
  | ok plan =>
    rw [hplan] at hrun
    have hchecks := Option.some.inj hrun
    rw [and_eq_true] at hchecks
    obtain ⟨hdone, hspilled⟩ := hchecks
    cases hinst : instantiate smallProgram 0 plan smallSet (smallArchive 1) freeEnv
        (Runtime.init smallProgram) with
    | error e =>
      rw [hinst] at hdone
      cases hdone
    | ok out =>
      obtain ⟨code, rt'⟩ := out
      obtain ⟨c, s, hc, hs, rfl⟩ := instantiate_stages (m := jumpToFused) rfl hinst
      rw [hc] at hspilled
      have hstage : ((stage c (Runtime.init smallProgram)).toOption.any
          fun s => spilled s.1 (publish c 0 s.1)) = true := hspilled
      rw [hs] at hstage
      exact ⟨plan, c, s, rt', rfl, by decide +kernel, hinst, hc, hs, not_exact_of_spilled hstage⟩

end B2Compiler.Instantiate
