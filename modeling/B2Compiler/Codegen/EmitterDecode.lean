import B2Compiler.Codegen.StencilBodies

/-!
# Emitted bytes decode to the intended instructions

Patching commutes with appending code behind a well-formed prefix, so every
emitter method can be described by the one instruction its bytes decode to once
the hole is filled.  `Emitted c x is` is that description of a whole buffer, and
there is one lemma for each emitter method.
-/

namespace B2Compiler.Codegen

open Rbc List Option
open Lib.X86 (Byte Reg RM Instr Decodes decode)

/-! ## Patching behind a prefix -/

/-- Every hole lies inside the code. -/
def X64.Bounded (x : X64) : Prop := ∀ h ∈ x.holes, h.codeOffset + 4 ≤ x.buf.length

namespace BodyCtx

theorem put32_length (buf : List Byte) (pos : Nat) (v : BitVec 32) :
    (put32 buf pos v).length = buf.length := by
  simp only [put32, length_set]

theorem put32_append (buf ext : List Byte) (pos : Nat) (v : BitVec 32)
    (hpos : pos + 4 ≤ buf.length) : put32 (buf ++ ext) pos v = put32 buf pos v ++ ext := by
  unfold put32
  rw [set_append_left _ _ (by omega), set_append_left _ _ (by simp; omega),
    set_append_left _ _ (by simp; omega), set_append_left _ _ (by simp; omega)]

/-- Filling the placeholder of a hole replaces exactly its four bytes. -/
theorem put32_hole (pre post : List Byte) (v : BitVec 32) :
    put32 (pre ++ (replicate 4 kHoleFill ++ post)) pre.length v = pre ++ (le32 v ++ post) := by
  induction pre with
  | nil => rfl
  | cons b pre ih =>
    have hset (l : List Byte) (n : Nat) (w : Byte) : (b :: l).set (n + 1) w = b :: l.set n w :=
      rfl
    unfold put32 at ih ⊢
    simp only [cons_append, length_cons, Nat.add_right_comm _ 1, hset, ih]

/-- The fold that fills holes, over any buffer. -/
def fill (c : BodyCtx) (holes : List ArchiveHole) (buf : List Byte) : Option (List Byte) :=
  holes.foldlM (fun buf h => (c.holeValue h).map (put32 buf h.codeOffset)) buf

theorem fill_length (c : BodyCtx) (holes : List ArchiveHole) (buf out : List Byte)
    (h : c.fill holes buf = some out) : out.length = buf.length := by
  induction holes generalizing buf with
  | nil =>
    simp only [fill, foldlM_nil, pure, Option.some.injEq] at h
    rw [h]
  | cons hd tl ih =>
    simp only [fill, foldlM_cons, bind, Option.bind] at h
    cases hv : c.holeValue hd with
    | none => simp [hv] at h
    | some v =>
      simp only [hv, map_some] at h
      rw [ih _ h, put32_length]

theorem fill_append (c : BodyCtx) (holes : List ArchiveHole) (buf ext : List Byte)
    (hb : ∀ h ∈ holes, h.codeOffset + 4 ≤ buf.length) :
    c.fill holes (buf ++ ext) = (c.fill holes buf).map (· ++ ext) := by
  induction holes generalizing buf with
  | nil => simp [fill]
  | cons hd tl ih =>
    have hhd := hb hd mem_cons_self
    simp only [fill, foldlM_cons, bind, Option.bind]
    cases hv : c.holeValue hd with
    | none => simp
    | some v =>
      simp only [map_some, put32_append buf ext _ v hhd]
      refine ih (put32 buf hd.codeOffset v) ?_
      intro h hm
      rw [put32_length]
      exact hb h (mem_cons_of_mem hd hm)

end BodyCtx

/-! ## Emitted instruction sequences -/

def Gpr.toReg : Gpr → Reg
  | .rax => .rax
  | .rcx => .rcx
  | .rdx => .rdx
  | .r10 => .r10

def Alu.toMachine : Alu → Lib.X86.Alu
  | .add => .add
  | .sub => .sub
  | .and => .and
  | .or => .or
  | .xor => .xor
  | .cmp => .cmp

def Shift.toMachine : Shift → Lib.X86.Shift
  | .shl => .shl
  | .shr => .shr
  | .sar => .sar

/-- The register operand a slot hole names. -/
def PatchSource.operand (c : BodyCtx) : PatchSource → Option (BitVec 16)
  | .insDst => some c.ins.dst
  | .insA => some c.ins.a
  | .insB => some c.ins.b
  | _ => none

/-- Filling the holes of the buffer succeeds and its bytes are the encodings of
`is`. -/
def Emitted (c : BodyCtx) (x : X64) (is : List (Instr × Nat)) : Prop :=
  ∃ out, c.fill x.holes x.buf = some out ∧ x.Bounded ∧ Decodes out is

namespace Emitted

variable {c : BodyCtx} {x : X64} {is : List (Instr × Nat)}

theorem nil (c : BodyCtx) : Emitted c {} [] := by
  refine ⟨[], rfl, ?_, .nil⟩
  intro h hm
  cases hm

/-- A method that appends bytes without a hole. -/
theorem emit (h : Emitted c x is) (bs : List Byte) (i : Instr) (hne : bs ≠ [])
    (hdec : ∀ tail, decode (bs ++ tail) = some (i, tail)) :
    Emitted c (x.emit bs) (is ++ [(i, bs.length)]) := by
  obtain ⟨out, hout, hbnd, hdecs⟩ := h
  refine ⟨out ++ bs, ?_, ?_, hdecs.snoc hne hdec⟩
  · show c.fill x.holes (x.buf ++ bs) = some (out ++ bs)
    rw [BodyCtx.fill_append c x.holes x.buf bs hbnd, hout]
    rfl
  · intro hl hm
    show hl.codeOffset + 4 ≤ (x.buf ++ bs).length
    have := hbnd hl hm
    rw [length_append]
    omega

theorem withHole (h : Emitted c x is) (pre post : List Byte) (kind : PatchKind)
    (source : PatchSource) (tag : HoleTag) (delta v : BitVec 32) (i : BitVec 32 → Instr)
    (hv : c.holeValue ⟨(x.buf ++ pre).length, kind, 4, source, tag, delta⟩ = some v)
    (hdec : ∀ b0 b1 b2 b3 tail, decode (pre ++ [b0, b1, b2, b3] ++ post ++ tail) =
      some (i (b3 ++ b2 ++ b1 ++ b0), tail)) :
    Emitted c (((x.emit pre).hole kind source tag delta).emit post)
      (is ++ [(i v, pre.length + 4 + post.length)]) := by
  obtain ⟨out, hout, hbnd, hdecs⟩ := h
  have hlen : (x.buf ++ pre).length = (out ++ pre).length := by
    rw [length_append, length_append, BodyCtx.fill_length c _ _ _ hout]
  refine ⟨out ++ (pre ++ le32 v ++ post), ?_, ?_, ?_⟩
  · show c.fill (x.holes ++ _) (x.buf ++ pre ++ replicate 4 kHoleFill ++ post) = _
    have hprefix := BodyCtx.fill_append c x.holes x.buf
      (pre ++ (replicate 4 kHoleFill ++ post)) hbnd
    have hset := BodyCtx.put32_hole (out ++ pre) post v
    rw [← hlen] at hset
    rw [hout, map_some] at hprefix
    unfold BodyCtx.fill at hprefix ⊢
    simp only [append_assoc] at hprefix hset hv ⊢
    rw [foldlM_append, hprefix]
    simp only [bind, Option.bind, foldlM_cons, foldlM_nil, X64.emit, hv, map_some, pure, hset]
  · intro hl hm
    show hl.codeOffset + 4 ≤ (x.buf ++ pre ++ replicate 4 kHoleFill ++ post).length
    simp only [length_append, length_replicate]
    rcases mem_append.mp hm with hm | hm
    · have := hbnd hl hm
      omega
    · have heq := mem_singleton.mp hm
      subst heq
      simp only [X64.emit, length_append]
      omega
  · have hne : pre ++ le32 v ++ post ≠ [] := by simp [le32]
    have hv' : ∀ tail, decode (pre ++ le32 v ++ post ++ tail) = some (i v, tail) := by
      intro tail
      rw [le32, hdec, Lib.X86.bytes32]
    have hsnoc := hdecs.snoc hne hv'
    simpa only [length_append, le32, length_cons, length_nil] using hsnoc

theorem holeEnd (h : Emitted c x is) (pre : List Byte) (kind : PatchKind)
    (source : PatchSource) (tag : HoleTag) (delta v : BitVec 32) (i : BitVec 32 → Instr)
    (hv : c.holeValue ⟨(x.buf ++ pre).length, kind, 4, source, tag, delta⟩ = some v)
    (hdec : ∀ b0 b1 b2 b3 tail, decode (pre ++ [b0, b1, b2, b3] ++ [] ++ tail) =
      some (i (b3 ++ b2 ++ b1 ++ b0), tail)) :
    Emitted c ((x.emit pre).hole kind source tag delta) (is ++ [(i v, pre.length + 4)]) := by
  have hhole := h.withHole pre [] kind source tag delta v i hv hdec
  have hnil (y : X64) : y.emit [] = y := by simp only [X64.emit, append_nil]
  rw [hnil, length_nil, Nat.add_zero] at hhole
  exact hhole

theorem holeValue_slot (n : Nat) {src : PatchSource} {r : BitVec 16}
    (hsrc : src.operand c = some r) (delta : BitVec 32) :
    c.holeValue ⟨n, .slotOffset, 4, src, .stream, delta⟩ = some (c.regOffset r + delta) := by
  cases src <;> simp_all [PatchSource.operand, BodyCtx.holeValue]

theorem slotEnd (h : Emitted c x is) (pre : List Byte) {src : PatchSource}
    {r : BitVec 16} (hsrc : src.operand c = some r) (delta : BitVec 32)
    (i : BitVec 32 → Instr)
    (hdec : ∀ b0 b1 b2 b3 tail, decode (pre ++ [b0, b1, b2, b3] ++ [] ++ tail) =
      some (i (b3 ++ b2 ++ b1 ++ b0), tail)) :
    Emitted c ((x.emit pre).hole .slotOffset src .stream delta)
      (is ++ [(i (c.regOffset r + delta), pre.length + 4)]) :=
  h.holeEnd pre _ src _ delta _ i (holeValue_slot _ hsrc delta) hdec

/-! ### One lemma for each emitter method -/

section Methods

variable (src : PatchSource) {r : BitVec 16}

section

variable (h : Emitted c x is)
include h

theorem loadSlot (dst : Gpr) (hsrc : src.operand c = some r) : Emitted c (x.loadSlot dst src)
      (is ++ [(.mov .w64 dst.toReg (.mem (c.regOffset r + 8)), 7)]) := by
  refine h.slotEnd _ hsrc 8 (fun d => .mov .w64 dst.toReg (.mem d)) ?_
  cases dst <;> intros <;> rfl

theorem loadSlot32 (dst : Gpr) (hsrc : src.operand c = some r) : Emitted c (x.loadSlot32 dst src)
      (is ++ [(.mov .w32 dst.toReg (.mem (c.regOffset r + 8)), 7)]) := by
  refine h.slotEnd _ hsrc 8 (fun d => .mov .w32 dst.toReg (.mem d)) ?_
  cases dst <;> intros <;> rfl

theorem storeSlot (srcReg : Gpr) (hsrc : src.operand c = some r) (delta : BitVec 32) :
    Emitted c (x.storeSlot srcReg src delta)
      (is ++ [(.movTo .w64 (.mem (c.regOffset r + delta)) srcReg.toReg, 7)]) := by
  refine h.slotEnd _ hsrc delta (fun d => .movTo .w64 (.mem d) srcReg.toReg) ?_
  cases srcReg <;> intros <;> rfl

theorem storeImm32Slot (hsrc : src.operand c = some r) (imm delta : BitVec 32) :
    Emitted c (x.storeImm32Slot src imm delta)
      (is ++ [(.movImm .w32 (.mem (c.regOffset r + delta)) imm, 10)]) := by
  refine h.withHole [0xC7, modrmRbpDisp 0] (le32 imm) _ src _ delta _
    (fun d => .movImm .w32 (.mem d) imm) (holeValue_slot _ hsrc delta) ?_
  intro b0 b1 b2 b3 tail
  have himm := Lib.X86.bytes32 imm
  show some (Instr.movImm .w32 (.mem (b3 ++ b2 ++ b1 ++ b0)) _, tail) = _
  rw [himm]

theorem movRegReg (dst srcReg : Gpr) : Emitted c (x.movRegReg dst srcReg)
      (is ++ [(.movTo .w64 (.reg dst.toReg) srcReg.toReg, 3)]) := by
  refine h.emit _ (.movTo .w64 (.reg dst.toReg) srcReg.toReg) (by simp) ?_
  cases dst <;> cases srcReg <;> intros <;> rfl

theorem movsxdReg (dst srcReg : Gpr) : Emitted c (x.movsxdReg dst srcReg)
      (is ++ [(.movsxd dst.toReg (.reg srcReg.toReg), 3)]) := by
  refine h.emit _ (.movsxd dst.toReg (.reg srcReg.toReg)) (by simp) ?_
  cases dst <;> cases srcReg <;> intros <;> rfl

theorem movsxdSlot (dst : Gpr) (hsrc : src.operand c = some r) : Emitted c (x.movsxdSlot dst src)
      (is ++ [(.movsxd dst.toReg (.mem (c.regOffset r + 8)), 7)]) := by
  refine h.slotEnd _ hsrc 8 (fun d => .movsxd dst.toReg (.mem d)) ?_
  cases dst <;> intros <;> rfl

theorem aluSlot (dst : Gpr) (op : Alu) (hsrc : src.operand c = some r) :
    Emitted c (x.aluSlot dst op src)
      (is ++ [(.alu .w64 op.toMachine dst.toReg (.mem (c.regOffset r + 8)), 7)]) := by
  refine h.slotEnd _ hsrc 8 (fun d => .alu .w64 op.toMachine dst.toReg (.mem d)) ?_
  cases dst <;> cases op <;> intros <;> rfl

theorem aluSlot32 (dst : Gpr) (op : Alu) (hsrc : src.operand c = some r) :
    Emitted c (x.aluSlot32 dst op src)
      (is ++ [(.alu .w32 op.toMachine dst.toReg (.mem (c.regOffset r + 8)), 7)]) := by
  refine h.slotEnd _ hsrc 8 (fun d => .alu .w32 op.toMachine dst.toReg (.mem d)) ?_
  cases dst <;> cases op <;> intros <;> rfl

theorem aluRegReg32 (dst : Gpr) (op : Alu) (srcReg : Gpr) : Emitted c (x.aluRegReg32 dst op srcReg)
      (is ++ [(.aluTo .w32 op.toMachine (.reg dst.toReg) srcReg.toReg, 3)]) := by
  refine h.emit _ (.aluTo .w32 op.toMachine (.reg dst.toReg) srcReg.toReg) (by simp) ?_
  cases dst <;> cases op <;> cases srcReg <;> intros <;> rfl

theorem addEaxImm32Hole : Emitted c (x.addEaxImm32Hole .imm32 .insImm .plan)
      (is ++ [(.aluImm .w32 .add (.reg .rax) c.ins.imm, 6)]) :=
  h.holeEnd [0x81, 0xC0] .imm32 .insImm .plan 0 c.ins.imm
    (fun d => .aluImm .w32 .add (.reg .rax) d) rfl (by intros; rfl)

theorem imulSlot (dst : Gpr) (hsrc : src.operand c = some r) : Emitted c (x.imulSlot dst src)
      (is ++ [(.imul .w64 dst.toReg (.mem (c.regOffset r + 8)), 8)]) := by
  refine h.slotEnd _ hsrc 8 (fun d => .imul .w64 dst.toReg (.mem d)) ?_
  cases dst <;> intros <;> rfl

theorem imulSlot32 (dst : Gpr) (hsrc : src.operand c = some r) : Emitted c (x.imulSlot32 dst src)
      (is ++ [(.imul .w32 dst.toReg (.mem (c.regOffset r + 8)), 8)]) := by
  refine h.slotEnd _ hsrc 8 (fun d => .imul .w32 dst.toReg (.mem d)) ?_
  cases dst <;> intros <;> rfl

/-- The single-operand forms put the extension bit of their operand into the
wrong prefix field, so they are right for the accumulator only. -/
theorem negReg32 : Emitted c (x.negReg32 kA) (is ++ [(.neg .w32 (.reg .rax), 3)]) :=
  h.emit _ (.neg .w32 (.reg .rax)) (by simp) (by intros; rfl)

theorem negReg64 : Emitted c (x.negReg64 kA) (is ++ [(.neg .w64 (.reg .rax), 3)]) :=
  h.emit _ (.neg .w64 (.reg .rax)) (by simp) (by intros; rfl)

theorem testReg32 (a b : Gpr) :
    Emitted c (x.testReg32 a b) (is ++ [(.test .w32 (.reg b.toReg) a.toReg, 3)]) := by
  refine h.emit _ (.test .w32 (.reg b.toReg) a.toReg) (by simp) ?_
  cases a <;> cases b <;> intros <;> rfl

theorem xorRegReg32 (a b : Gpr) : Emitted c (x.xorRegReg32 a b)
      (is ++ [(.aluTo .w32 .xor (.reg b.toReg) a.toReg, 3)]) := by
  refine h.emit _ (.aluTo .w32 .xor (.reg b.toReg) a.toReg) (by simp) ?_
  cases a <;> cases b <;> intros <;> rfl

theorem shiftByCl32 (s : Shift) : Emitted c (x.shiftByCl kA s false)
      (is ++ [(.shiftCl .w32 s.toMachine (.reg .rax), 3)]) := by
  refine h.emit _ (.shiftCl .w32 s.toMachine (.reg .rax)) (by simp) ?_
  cases s <;> intros <;> rfl

theorem shiftByCl64 (s : Shift) : Emitted c (x.shiftByCl kA s true)
      (is ++ [(.shiftCl .w64 s.toMachine (.reg .rax), 3)]) := by
  refine h.emit _ (.shiftCl .w64 s.toMachine (.reg .rax)) (by simp) ?_
  cases s <;> intros <;> rfl

theorem cdq : Emitted c x.cdq (is ++ [(.signSplit .w32, 1)]) :=
  h.emit [0x99] (.signSplit .w32) (by simp) (by intros; rfl)

theorem cqo : Emitted c x.cqo (is ++ [(.signSplit .w64, 2)]) :=
  h.emit [0x48, 0x99] (.signSplit .w64) (by simp) (by intros; rfl)

theorem idivReg32 (g : Gpr) :
    Emitted c (x.idivReg32 g) (is ++ [(.idiv .w32 (.reg g.toReg), 3)]) := by
  refine h.emit _ (.idiv .w32 (.reg g.toReg)) (by simp) ?_
  cases g <;> intros <;> rfl

theorem idivReg64 (g : Gpr) :
    Emitted c (x.idivReg64 g) (is ++ [(.idiv .w64 (.reg g.toReg), 3)]) := by
  refine h.emit _ (.idiv .w64 (.reg g.toReg)) (by simp) ?_
  cases g <;> intros <;> rfl

theorem testR10 :
    Emitted c (x.emit [0x4D, 0x85, 0xD2]) (is ++ [(.test .w64 (.reg .r10) .r10, 3)]) :=
  h.emit _ (.test .w64 (.reg .r10) .r10) (by simp) (by intros; rfl)

theorem setccA : Emitted c (x.setcc kB kCcA) (is ++ [(.setcc .a .rcx, 3)]) :=
  h.emit _ (.setcc .a .rcx) (by simp) (by intros; rfl)

theorem setccB : Emitted c (x.setcc kC kCcB) (is ++ [(.setcc .b .rdx, 3)]) :=
  h.emit _ (.setcc .b .rdx) (by simp) (by intros; rfl)

theorem movzxR32R8 (dst srcReg : Gpr) : Emitted c (x.movzxR32R8 dst srcReg)
      (is ++ [(.extend false 1 dst.toReg (.reg srcReg.toReg), 4)]) := by
  refine h.emit _ (.extend false 1 dst.toReg (.reg srcReg.toReg)) (by simp) ?_
  cases dst <;> cases srcReg <;> intros <;> rfl

end

/-- Signedness and size of an extending load. -/
def extForm : Ext → Bool × Nat
  | .zx8 => (false, 1)
  | .zx16 => (false, 2)
  | .sx8 => (true, 1)
  | .sx16 => (true, 2)

theorem extendLoad (h : Emitted c x is) (dst : Gpr) (e : Ext) (hsrc : src.operand c = some r) :
    Emitted c (x.extendLoad dst e src) (is ++ [(.extend (extForm e).1 (extForm e).2 dst.toReg
        (.mem (c.regOffset r + 8)), 8)]) := by
  refine h.slotEnd _ hsrc 8 (fun d => .extend (extForm e).1 (extForm e).2 dst.toReg (.mem d)) ?_
  cases dst <;> cases e <;> intros <;> rfl

/-- The trap branch: its displacement leads from behind the instruction to the
covering thunk. -/
theorem jccTrap (h : Emitted c x is) : Emitted c (x.jccHole kCcE .deoptIdSource .layout)
      (is ++ [(.jcc .e (c.thunkOffset - (c.base + BitVec.ofNat 32 (x.buf.length + 2) + 4)), 6)]) :=
  h.holeEnd [0x0F, 0x80 + kCcE] .branchRel32 .deoptIdSource .layout 0 _
    (fun d => .jcc .e d) (by rw [length_append]; rfl) (by intros; rfl)

end Methods

theorem runBlock_eq (h : Emitted c x is) (s : Lib.X86.State) :
    (c.patch x).bind (fun bytes => Lib.X86.runBlock c.base bytes s) =
      some (Lib.X86.runInstrs c.base s is) := by
  obtain ⟨out, hout, _, hdecs⟩ := h
  have hpatch : c.patch x = some out := hout
  rw [hpatch, bind_some, Lib.X86.runBlock, hdecs.decodeBlock_eq out.length (Nat.le_refl _),
    map_some]

end Emitted

end B2Compiler.Codegen
