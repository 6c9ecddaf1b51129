import B2Compiler.Codegen.EmitterDecode
import B2Compiler.Interp.Value

/-!
# What the integer bodies do to an activation

Registers live in sixteen-byte slots behind the activation base; a body reads its
operand slots, computes in scratch registers, and stores payload and tag into the
destination slot.  `Reaches` follows the machine state through the emitter
methods, one lemma for each, and `BodyCtx.Leaves` states the value a finished body
leaves in the destination.
-/

namespace B2Compiler.Codegen

open Rbc
open Interp
open Lib.X86 (Addr Byte State Reg RM Instr Outcome read16 read32 read64 write
  runInstrs runInstrs_append runBlock exec idivQR)

/-! ## Activation slots -/

/-- The verification type a slot tag stands for. -/
def typeOfTag (t : BitVec 32) : RType :=
  match t.toNat with
  | 1 => .int
  | 2 => .long
  | 3 => .float
  | 4 => .double
  | 5 => .null
  | 6 => .ref
  | _ => .bottom

namespace BodyCtx

variable (c : BodyCtx)

/-- Address of a register's slot: locals first, sixteen bytes for each slot. -/
def slotAddr (s : State) (r : BitVec 16) : Addr :=
  s.gpr .rbp + 152 + 16 * (c.numLocals.setWidth 64 + r.setWidth 64)

def slotValue (s : State) (r : BitVec 16) : Value :=
  ⟨typeOfTag (read32 s.mem (c.slotAddr s r)), read64 s.mem (c.slotAddr s r + 8)⟩

/-- The activation's registers as the interpreter's register file. -/
def regFile (s : State) (r : Nat) : Value := c.slotValue s (BitVec.ofNat 16 r)

/-- Run the instantiated body on an activation. -/
def run (s : State) : Option Outcome :=
  (bodyBytes c).bind fun bytes => runBlock c.base bytes s

theorem regOffset_toNat (r : BitVec 16) (delta : BitVec 32) (hd : delta.toNat ≤ 8) :
    (c.regOffset r + delta).toNat = 152 + 16 * (c.numLocals.toNat + r.toNat) + delta.toNat := by
  have hn := c.numLocals.isLt
  have hr := r.isLt
  have hbase : kSlotsBase.toNat = 152 := rfl
  have hslot : (16 : BitVec 32).toNat = 16 := rfl
  simp only [regOffset, slotOffset, BitVec.toNat_add, BitVec.toNat_mul, BitVec.toNat_setWidth,
    hbase, hslot]
  omega

/-- The displacement of a slot access addresses the slot. -/
theorem addr_regOffset (s : State) (r : BitVec 16) (delta : BitVec 32) (hd : delta.toNat ≤ 8) :
    s.addr (c.regOffset r + delta) = c.slotAddr s r + delta.setWidth 64 := by
  have hnat := c.regOffset_toNat r delta hd
  have hn := c.numLocals.isLt
  have hr := r.isLt
  have hmsb : (c.regOffset r + delta).msb = false := by
    rw [BitVec.msb_eq_false_iff_two_mul_lt, hnat]
    omega
  unfold State.addr slotAddr
  rw [BitVec.signExtend_eq_setWidth_of_msb_false hmsb]
  have hbase : (152 : BitVec 64).toNat = 152 := rfl
  have hslot : (16 : BitVec 64).toNat = 16 := rfl
  apply BitVec.eq_of_toNat_eq
  simp only [BitVec.toNat_add, BitVec.toNat_mul, BitVec.toNat_setWidth, hnat, hbase, hslot]
  omega

end BodyCtx

/-! ## Slot reads and writes -/

theorem read16_low (m : Addr → Byte) (a : Addr) : (read64 m a).setWidth 16 = read16 m a := by
  refine BitVec.eq_of_getLsbD_eq fun i hi => ?_
  simp only [read64, read16, BitVec.getLsbD_setWidth, BitVec.getLsbD_append, hi, decide_true,
    Bool.true_and]
  split_ifs <;> first | rfl | omega

namespace BodyCtx

variable (c : BodyCtx)

theorem load32_slot (s : State) (r : BitVec 16) :
    s.load .w32 (.mem (c.regOffset r + 8)) = (c.slotValue s r).asInt := by
  have haddr := c.addr_regOffset s r 8 (by decide)
  show read32 s.mem (s.addr (c.regOffset r + 8)) = (read64 s.mem (c.slotAddr s r + 8)).setWidth 32
  rw [haddr, Lib.X86.setWidth_read64]
  rfl

theorem load64_slot (s : State) (r : BitVec 16) :
    s.load .w64 (.mem (c.regOffset r + 8)) = (c.slotValue s r).asLong := by
  have haddr := c.addr_regOffset s r 8 (by decide)
  show read64 s.mem (s.addr (c.regOffset r + 8)) = read64 s.mem (c.slotAddr s r + 8)
  rw [haddr]
  rfl

theorem read16_slot (s : State) (r : BitVec 16) :
    read16 s.mem (s.addr (c.regOffset r + 8)) = (c.slotValue s r).asInt.setWidth 16 := by
  have haddr := c.addr_regOffset s r 8 (by decide)
  show _ = ((read64 s.mem (c.slotAddr s r + 8)).setWidth 32).setWidth 16
  rw [haddr, BitVec.setWidth_setWidth_of_le _ (by decide), read16_low]
  rfl

/-- Slots depend on the activation base and the memory only. -/
@[simp] theorem slotValue_setReg (s : State) {q : Reg} (hq : Reg.rbp ≠ q) (v : BitVec 64)
    (r : BitVec 16) : c.slotValue (s.setReg q v) r = c.slotValue s r := by
  simp only [slotValue, slotAddr, State.setReg_gpr, hq, if_false, State.setReg_mem]

@[simp] theorem slotValue_setFlags (s : State) (f : Lib.X86.Flags) (r : BitVec 16) :
    c.slotValue (s.setFlags f) r = c.slotValue s r := rfl

/-- The two stores that end every body. -/
def storeTail (tag : BitVec 32) : List (Instr × Nat) :=
  [(.movTo .w64 (.mem (c.regOffset c.ins.dst + kDeltaPayload)) .rax, 7),
    (.movImm .w32 (.mem (c.regOffset c.ins.dst + kDeltaTag)) tag, 10)]

/-- They leave the accumulator and the tag in the destination slot. -/
theorem run_storeTail (pos : BitVec 32) (s : State) (tag : BitVec 32) :
    ∃ s', runInstrs pos s (c.storeTail tag) = .fall s' ∧ s'.gpr = s.gpr ∧
      c.slotValue s' c.ins.dst = ⟨typeOfTag tag, s.gpr .rax⟩ := by
  have hpay := c.addr_regOffset s c.ins.dst 8 (by decide)
  have htag := c.addr_regOffset s c.ins.dst 0 (by decide)
  have hzero : c.slotAddr s c.ins.dst + BitVec.setWidth 64 (0 : BitVec 32) =
      c.slotAddr s c.ins.dst := BitVec.add_zero _
  have height : BitVec.setWidth 64 (8 : BitVec 32) = 8 := rfl
  rw [hzero] at htag
  rw [height] at hpay
  have hdisj : ∀ k : Nat, k < 8 →
      4 ≤ (c.slotAddr s c.ins.dst + 8 + BitVec.ofNat 64 k - c.slotAddr s c.ins.dst).toNat := by
    intro k hk
    have hsub : c.slotAddr s c.ins.dst + 8 + BitVec.ofNat 64 k - c.slotAddr s c.ins.dst =
        8 + BitVec.ofNat 64 k := by
      rw [BitVec.add_assoc, BitVec.add_comm, BitVec.add_sub_cancel]
    have h8 : (8 : BitVec 64).toNat = 8 := rfl
    rw [hsub, BitVec.toNat_add, h8, BitVec.toNat_ofNat]
    omega
  have hsign : BitVec.signExtend 32 tag = tag := BitVec.signExtend_eq tag
  have hw : BitVec.setWidth 64 (s.gpr .rax) = s.gpr .rax := BitVec.setWidth_eq _
  refine ⟨_, rfl, rfl, ?_⟩
  show (⟨typeOfTag (read32 (write (write s.mem (s.addr (c.regOffset c.ins.dst + 8)) 8
        (BitVec.setWidth 64 (s.gpr .rax))) (s.addr (c.regOffset c.ins.dst + 0)) 4
        (BitVec.signExtend 32 tag)) (c.slotAddr s c.ins.dst)),
      read64 (write (write s.mem (s.addr (c.regOffset c.ins.dst + 8)) 8
        (BitVec.setWidth 64 (s.gpr .rax))) (s.addr (c.regOffset c.ins.dst + 0)) 4
        (BitVec.signExtend 32 tag)) (c.slotAddr s c.ins.dst + 8)⟩ : Value) = _
  rw [hpay, htag, hsign, hw, Lib.X86.read32_write32,
    Lib.X86.read64_write_of_disjoint _ _ _ _ _ hdisj, Lib.X86.read64_write64]

/-- The body falls through with the given value in the destination slot, the
activation base unchanged. -/
def Leaves (s : State) (v : Value) : Prop :=
  ∃ s', c.run s = some (.fall s') ∧ s'.gpr .rbp = s.gpr .rbp ∧ c.slotValue s' c.ins.dst = v

end BodyCtx

/-! ## Effects of the emitter methods -/

/-- The code emitted so far runs straight through from `s` to `s'`. -/
def Reaches (c : BodyCtx) (s : State) (x : X64) (s' : State) : Prop :=
  ∃ is, Emitted c x is ∧ (is.map Prod.snd).sum = x.buf.length ∧ runInstrs c.base s is = .fall s'

namespace Reaches

variable {c : BodyCtx} {s s₁ s₂ : State} {x x' : X64}

theorem nil (c : BodyCtx) (s : State) : Reaches c s {} s :=
  ⟨[], Emitted.nil c, rfl, rfl⟩

/-- One more method whose instruction falls through. -/
theorem step {i : Instr} {len : Nat} (h : Reaches c s x s₁)
    (hemit : ∀ is, Emitted c x is → Emitted c x' (is ++ [(i, len)]))
    (hlen : x'.buf.length = x.buf.length + len) (hexec : exec s₁ i = .next s₂) :
    Reaches c s x' s₂ := by
  obtain ⟨is, he, hsum, hrun⟩ := h
  refine ⟨is ++ [(i, len)], hemit is he, ?_, ?_⟩
  · rw [List.map_append, List.sum_append, hsum, hlen]
    simp
  · rw [runInstrs_append c.base s s₁ is _ hrun]
    simp only [runInstrs, hexec]

theorem emit {bs : List Byte} {i : Instr} (h : Reaches c s x s₁)
    (hemit : ∀ is, Emitted c x is → Emitted c (x.emit bs) (is ++ [(i, bs.length)]))
    (hexec : exec s₁ i = .next s₂) : Reaches c s (x.emit bs) s₂ :=
  h.step hemit (List.length_append ..) hexec

theorem hole {bs : List Byte} {k : PatchKind} {p : PatchSource} {t : HoleTag}
    {d : BitVec 32} {i : Instr} (h : Reaches c s x s₁)
    (hemit : ∀ is, Emitted c x is →
      Emitted c ((x.emit bs).hole k p t d) (is ++ [(i, bs.length + 4)]))
    (hexec : exec s₁ i = .next s₂) : Reaches c s ((x.emit bs).hole k p t d) s₂ := by
  refine h.step hemit ?_ hexec
  simp only [X64.hole, X64.emit, List.length_append, List.length_replicate, Nat.add_assoc]

section Slots

variable (src : PatchSource) {r : BitVec 16} (hsrc : src.operand c = some r)

include hsrc

variable (h : Reaches c s x s₁)
include h

theorem loadSlot32 (dst : Gpr) : Reaches c s (x.loadSlot32 dst src)
      (s₁.setReg dst.toReg ((c.slotValue s₁ r).asInt.setWidth 64)) := by
  refine h.hole (fun _ he => he.loadSlot32 src dst hsrc) ?_
  simp only [exec, State.setRegW, c.load32_slot]

theorem loadSlot (dst : Gpr) : Reaches c s (x.loadSlot dst src)
      (s₁.setReg dst.toReg (c.slotValue s₁ r).asLong) := by
  refine h.hole (fun _ he => he.loadSlot src dst hsrc) ?_
  simp only [exec, State.setRegW, c.load64_slot]

theorem aluSlot32 (op : Alu) (hop : op ≠ .cmp) : Reaches c s (x.aluSlot32 kA op src)
      ((s₁.setReg .rax ((op.toMachine.eval ((s₁.gpr .rax).setWidth 32)
        (c.slotValue s₁ r).asInt).1.setWidth 64)).setFlags
        (op.toMachine.eval ((s₁.gpr .rax).setWidth 32) (c.slotValue s₁ r).asInt).2) := by
  refine h.hole (fun _ he => he.aluSlot32 src kA op hsrc) ?_
  have hne : op.toMachine ≠ .cmp := by cases op <;> simp_all [Alu.toMachine]
  simp only [exec, hne, if_false, State.setRegW, c.load32_slot]
  rfl

theorem aluSlot (op : Alu) (hop : op ≠ .cmp) : Reaches c s (x.aluSlot kA op src)
      ((s₁.setReg .rax (op.toMachine.eval (s₁.gpr .rax) (c.slotValue s₁ r).asLong).1).setFlags
        (op.toMachine.eval (s₁.gpr .rax) (c.slotValue s₁ r).asLong).2) := by
  refine h.hole (fun _ he => he.aluSlot src kA op hsrc) ?_
  have hne : op.toMachine ≠ .cmp := by cases op <;> simp_all [Alu.toMachine]
  have hfull : s₁.getReg .w64 .rax = s₁.gpr .rax := BitVec.setWidth_eq _
  simp only [exec, hne, if_false, State.setRegW, c.load64_slot]
  rw [show kA.toReg = Reg.rax from rfl, hfull]

theorem cmpSlot32 : Reaches c s (x.aluSlot32 kA .cmp src)
      (s₁.setFlags (Lib.X86.Alu.cmp.eval ((s₁.gpr .rax).setWidth 32)
        (c.slotValue s₁ r).asInt).2) := by
  refine h.hole (fun _ he => he.aluSlot32 src kA .cmp hsrc) ?_
  simp only [exec, Alu.toMachine, if_true, c.load32_slot]
  rfl

theorem cmpSlot : Reaches c s (x.aluSlot kA .cmp src)
      (s₁.setFlags (Lib.X86.Alu.cmp.eval (s₁.gpr .rax) (c.slotValue s₁ r).asLong).2) := by
  refine h.hole (fun _ he => he.aluSlot src kA .cmp hsrc) ?_
  have hfull : s₁.getReg .w64 .rax = s₁.gpr .rax := BitVec.setWidth_eq _
  simp only [exec, Alu.toMachine, if_true, c.load64_slot]
  rw [show kA.toReg = Reg.rax from rfl, hfull]

theorem imulSlot32 : ∃ f, Reaches c s (x.imulSlot32 kA src)
      ((s₁.setReg .rax (((s₁.gpr .rax).setWidth 32 * (c.slotValue s₁ r).asInt).setWidth
        64)).setFlags f) := by
  obtain ⟨f, hf⟩ : ∃ f, exec s₁ (.imul .w32 kA.toReg (.mem (c.regOffset r + 8))) =
      .next ((s₁.setReg .rax (((s₁.gpr .rax).setWidth 32 *
        (c.slotValue s₁ r).asInt).setWidth 64)).setFlags f) := by
    simp only [exec, State.setRegW, c.load32_slot]
    exact ⟨_, rfl⟩
  exact ⟨f, h.hole (fun _ he => he.imulSlot32 src kA hsrc) hf⟩

theorem imulSlot : ∃ f, Reaches c s (x.imulSlot kA src)
      ((s₁.setReg .rax (s₁.gpr .rax * (c.slotValue s₁ r).asLong)).setFlags f) := by
  have hfull : s₁.getReg .w64 .rax = s₁.gpr .rax := BitVec.setWidth_eq _
  obtain ⟨f, hf⟩ : ∃ f, exec s₁ (.imul .w64 kA.toReg (.mem (c.regOffset r + 8))) =
      .next ((s₁.setReg .rax (s₁.gpr .rax * (c.slotValue s₁ r).asLong)).setFlags f) := by
    simp only [exec, State.setRegW, c.load64_slot]
    rw [show kA.toReg = Reg.rax from rfl, hfull]
    exact ⟨_, rfl⟩
  exact ⟨f, h.hole (fun _ he => he.imulSlot src kA hsrc) hf⟩

theorem movsxdSlot : Reaches c s (x.movsxdSlot kA src)
      (s₁.setReg .rax ((c.slotValue s₁ r).asInt.signExtend 64)) := by
  refine h.hole (fun _ he => he.movsxdSlot src kA hsrc) ?_
  simp only [exec, c.load32_slot]
  rfl

theorem extendLoad (e : Ext) : Reaches c s (x.extendLoad kA e src) (s₁.setReg .rax ((match e with
        | .zx8 => ((c.slotValue s₁ r).asInt.setWidth 8).setWidth 32
        | .zx16 => ((c.slotValue s₁ r).asInt.setWidth 16).setWidth 32
        | .sx8 => ((c.slotValue s₁ r).asInt.setWidth 8).signExtend 32
        | .sx16 => ((c.slotValue s₁ r).asInt.setWidth 16).signExtend 32 : BitVec 32).setWidth
          64)) := by
  refine h.hole (fun _ he => he.extendLoad src kA e hsrc) ?_
  have hlow (n : Nat) (hn : n ≤ 16) : (((c.slotValue s₁ r).asInt.setWidth 16).setWidth
      64).setWidth n = (c.slotValue s₁ r).asInt.setWidth n := by
    rw [BitVec.setWidth_setWidth_of_le _ (by omega), BitVec.setWidth_setWidth_of_le _ hn]
  cases e <;> simp only [Emitted.extForm, exec, c.read16_slot, State.setRegW] <;>
    rw [hlow _ (by decide)] <;> rfl

end Slots

section

variable (h : Reaches c s x s₁)
include h

theorem negReg32 : ∃ f, Reaches c s (x.negReg32 kA)
      ((s₁.setReg .rax ((0 - (s₁.gpr .rax).setWidth 32).setWidth 64)).setFlags f) :=
  ⟨_, h.emit (fun _ he => he.negReg32) rfl⟩

theorem negReg64 : ∃ f, Reaches c s (x.negReg64 kA)
      ((s₁.setReg .rax (0 - (s₁.gpr .rax).setWidth 64)).setFlags f) :=
  ⟨_, h.emit (fun _ he => he.negReg64) rfl⟩

theorem addEaxImm : ∃ f, Reaches c s (x.addEaxImm32Hole .imm32 .insImm .plan)
      ((s₁.setReg .rax (((s₁.gpr .rax).setWidth 32 + c.ins.imm).setWidth 64)).setFlags f) := by
  have himm : c.ins.imm.signExtend 32 = c.ins.imm := BitVec.signExtend_eq _
  obtain ⟨f, hf⟩ : ∃ f, exec s₁ (.aluImm .w32 .add (.reg .rax) c.ins.imm) =
      .next ((s₁.setReg .rax (((s₁.gpr .rax).setWidth 32 + c.ins.imm).setWidth
        64)).setFlags f) := by
    simp only [exec, himm]
    exact ⟨_, rfl⟩
  exact ⟨f, h.hole (fun _ he => he.addEaxImm32Hole) hf⟩

theorem shiftByCl32 (sh : Shift) : ∃ f, Reaches c s (x.shiftByCl kA sh false)
      ((s₁.setReg .rax ((sh.toMachine.eval ((s₁.gpr .rax).setWidth 32)
        ((s₁.gpr .rcx).toNat % 256 % 32)).setWidth 64)).setFlags f) := by
  obtain ⟨f, hf⟩ : ∃ f, exec s₁ (.shiftCl .w32 sh.toMachine (.reg .rax)) =
      .next ((s₁.setReg .rax ((sh.toMachine.eval ((s₁.gpr .rax).setWidth 32)
        ((s₁.gpr .rcx).toNat % 256 % 32)).setWidth 64)).setFlags f) := by
    simp only [exec]
    split
    · exact ⟨s₁.flags, rfl⟩
    · exact ⟨_, rfl⟩
  exact ⟨f, h.emit (fun _ he => he.shiftByCl32 sh) hf⟩

theorem shiftByCl64 (sh : Shift) : ∃ f, Reaches c s (x.shiftByCl kA sh true)
      ((s₁.setReg .rax (sh.toMachine.eval (s₁.gpr .rax)
        ((s₁.gpr .rcx).toNat % 256 % 64))).setFlags f) := by
  have hfull : s₁.load .w64 (.reg .rax) = s₁.gpr .rax := BitVec.setWidth_eq _
  obtain ⟨f, hf⟩ : ∃ f, exec s₁ (.shiftCl .w64 sh.toMachine (.reg .rax)) =
      .next ((s₁.setReg .rax (sh.toMachine.eval (s₁.gpr .rax)
        ((s₁.gpr .rcx).toNat % 256 % 64))).setFlags f) := by
    simp only [exec, hfull]
    split
    · exact ⟨s₁.flags, rfl⟩
    · exact ⟨_, rfl⟩
  exact ⟨f, h.emit (fun _ he => he.shiftByCl64 sh) hf⟩

end

/-! ### Ends of bodies -/

/-- A body that ends with the accumulator stored under a tag. -/
theorem leaves {tag : BitVec 32} {t : RType} (ht : typeOfTag tag = t) (h : Reaches c s x s₁)
    (hbody : emitOpBody c.ins.op {} = some (storeResult64 x tag))
    (hbase : s₁.gpr .rbp = s.gpr .rbp) : c.Leaves s ⟨t, s₁.gpr .rax⟩ := by
  subst ht
  obtain ⟨is, he, _, hrun⟩ := h
  have hpay := he.storeSlot .insDst kA rfl kDeltaPayload
  have htag := hpay.storeImm32Slot .insDst rfl tag kDeltaTag
  rw [List.append_assoc] at htag
  have hfront := runInstrs_append c.base s s₁ is (c.storeTail tag) hrun
  obtain ⟨s₂, htail, hgpr, hslot⟩ := c.run_storeTail
    (c.base + BitVec.ofNat 32 (is.map Prod.snd).sum) s₁ tag
  refine ⟨s₂, ?_, ?_, hslot⟩
  · have hblock := htag.runBlock_eq s
    rw [BodyCtx.run, bodyBytes, hbody, Option.bind_some]
    refine hblock.trans ?_
    rw [← htail, ← hfront]
    rfl
  · rw [hgpr, hbase]

theorem leaves32 (h : Reaches c s x s₁) (hbody : emitOpBody c.ins.op {} = some (storeResult32 x))
    (hbase : s₁.gpr .rbp = s.gpr .rbp) :
    c.Leaves s ⟨.int, ((s₁.gpr .rax).setWidth 32).signExtend 64⟩ := by
  have hext : Reaches c s (x.movsxdReg kA kA)
      (s₁.setReg .rax (((s₁.gpr .rax).setWidth 32).signExtend 64)) :=
    h.emit (fun _ he => he.movsxdReg kA kA) rfl
  exact hext.leaves rfl hbody hbase

end Reaches

/-! ### Bodies that do not reach their end -/

/-- Code emitted behind a buffer. -/
def Extends (c : BodyCtx) (x y : X64) : Prop :=
  ∀ is, Emitted c x is → ∃ back, Emitted c y (is ++ back)

namespace Extends

variable {c : BodyCtx} {x y z : X64}

theorem of_step {p : Instr × Nat} (h : ∀ is, Emitted c x is → Emitted c y (is ++ [p])) :
    Extends c x y :=
  fun is he => ⟨[p], h is he⟩

theorem trans (hxy : Extends c x y) (hyz : Extends c y z) : Extends c x z := by
  intro is he
  obtain ⟨b₁, h₁⟩ := hxy is he
  obtain ⟨b₂, h₂⟩ := hyz _ h₁
  rw [List.append_assoc] at h₂
  exact ⟨b₁ ++ b₂, h₂⟩

theorem storeResult64 (c : BodyCtx) (x : X64) (tag : BitVec 32) :
    Extends c x (storeResult64 x tag) :=
  (of_step fun _ he => he.storeSlot .insDst kA rfl kDeltaPayload).trans
    (of_step fun _ he => he.storeImm32Slot .insDst rfl tag kDeltaTag)

theorem storeResult32 (c : BodyCtx) (x : X64) : Extends c x (storeResult32 x) :=
  (of_step fun _ he => he.movsxdReg kA kA).trans (storeResult64 c _ kTagInt)

/-- The optional move of the remainder into the accumulator. -/
theorem remainderMove (c : BodyCtx) (x : X64) (remainder : Bool) :
    Extends c x (if remainder then x.movRegReg kA kC else x) := by
  cases remainder with
  | false => exact fun is he => ⟨[], by rw [List.append_nil]; exact he⟩
  | true => exact of_step fun _ he => he.movRegReg kA kC

end Extends

namespace Reaches

variable {c : BodyCtx} {s s₁ : State} {x x' y : X64} {i : Instr} {len : Nat}

theorem run_next (h : Reaches c s x s₁) (hbody : emitOpBody c.ins.op {} = some y)
    (hemit : ∀ is, Emitted c x is → Emitted c x' (is ++ [(i, len)]))
    (hrest : Extends c x' y) :
    ∃ back, c.run s = some
      (runInstrs (c.base + BitVec.ofNat 32 x.buf.length) s₁ ((i, len) :: back)) := by
  obtain ⟨is, he, hsum, hrun⟩ := h
  obtain ⟨back, hall⟩ := hrest _ (hemit is he)
  rw [List.append_assoc] at hall
  refine ⟨back, ?_⟩
  have hblock : c.run s = some (runInstrs c.base s (is ++ ([(i, len)] ++ back))) := by
    rw [BodyCtx.run, bodyBytes, hbody, Option.bind_some]
    exact hall.runBlock_eq s
  rw [hblock, runInstrs_append c.base s s₁ is _ hrun, hsum]
  rfl

theorem run_trap (h : Reaches c s x s₁) (hbody : emitOpBody c.ins.op {} = some y)
    (hrest : Extends c (x.jccHole kCcE .deoptIdSource .layout) y)
    (hz : s₁.flags.zf = true) : c.run s = some (.jump c.thunkOffset s₁) := by
  obtain ⟨back, hrun⟩ := h.run_next hbody (fun _ he => he.jccTrap) hrest
  have htarget : c.base + BitVec.ofNat 32 x.buf.length + BitVec.ofNat 32 6 +
      (c.thunkOffset - (c.base + BitVec.ofNat 32 (x.buf.length + 2) + 4)) =
      c.thunkOffset := by
    rw [BitVec.ofNat_add]
    bv_omega
  rw [hrun]
  simp only [runInstrs, exec, Lib.X86.Cond.holds, hz, if_true, htarget]

theorem noTrap (h : Reaches c s x s₁) (hz : s₁.flags.zf = false) :
    Reaches c s (x.jccHole kCcE .deoptIdSource .layout) s₁ := by
  refine h.hole (fun _ he => he.jccTrap) ?_
  simp only [exec, Lib.X86.Cond.holds, hz, Bool.false_eq_true, if_false]

theorem run_fault (h : Reaches c s x s₁) (hbody : emitOpBody c.ins.op {} = some y)
    (hemit : ∀ is, Emitted c x is → Emitted c x' (is ++ [(i, len)]))
    (hrest : Extends c x' y) (hf : exec s₁ i = .fault) : c.run s = some .fault := by
  obtain ⟨back, hrun⟩ := h.run_next hbody hemit hrest
  rw [hrun]
  simp only [runInstrs, hf]

end Reaches

section Division

variable {c : BodyCtx} {s : State} {remainder : Bool}

/-- The three ways a division body can end. -/
structure DivSpec (c : BodyCtx) (s : State) (zero overflow : Prop) (v : Value) : Prop where
  trap : zero → ∃ s', c.run s = some (.jump c.thunkOffset s') ∧ s'.mem = s.mem ∧
    s'.gpr .rbp = s.gpr .rbp
  fault : ¬zero → overflow → c.run s = some .fault
  value : ¬zero → ¬overflow → c.Leaves s v

/-- The operands of a 32-bit division in place, and the flags of the zero test. -/
theorem reaches_intDivTest (c : BodyCtx) (s : State) :
    ∃ s', Reaches c s (((({} : X64).loadSlot32 kA .insA).loadSlot32 kT .insB).testReg32 kT kT) s' ∧
      s'.getReg .w32 .rax = (c.slotValue s c.ins.a).asInt ∧
      s'.getReg .w32 .r10 = (c.slotValue s c.ins.b).asInt ∧
      s'.gpr .rbp = s.gpr .rbp ∧ s'.mem = s.mem ∧
      s'.flags.zf = ((c.slotValue s c.ins.b).asInt == 0) := by
  have hload := ((Reaches.nil c s).loadSlot32 .insA rfl kA).loadSlot32 .insB rfl kT
  refine ⟨_, hload.emit (fun _ he => he.testReg32 kT kT) rfl, ?_⟩
  simp [Gpr.toReg, kA, kT, Lib.X86.Alu.eval, State.load, State.getReg]

/-- The operands of a 64-bit division in place, and the flags of the zero test. -/
theorem reaches_longDivTest (c : BodyCtx) (s : State) :
    ∃ s', Reaches c s (((({} : X64).loadSlot kA .insA).loadSlot kT .insB).emit
        [0x4D, 0x85, 0xD2]) s' ∧
      s'.getReg .w64 .rax = (c.slotValue s c.ins.a).asLong ∧
      s'.getReg .w64 .r10 = (c.slotValue s c.ins.b).asLong ∧
      s'.gpr .rbp = s.gpr .rbp ∧ s'.mem = s.mem ∧
      s'.flags.zf = ((c.slotValue s c.ins.b).asLong == 0) := by
  have hload := ((Reaches.nil c s).loadSlot .insA rfl kA).loadSlot .insB rfl kT
  refine ⟨_, hload.emit (fun _ he => he.testR10) rfl, ?_⟩
  simp [Gpr.toReg, kA, kT, Lib.X86.Alu.eval, State.load, State.getReg]

theorem divSpec_int (hbody : emitOpBody c.ins.op {} = some (intDivRem {} remainder)) :
    DivSpec c s ((c.slotValue s c.ins.b).asInt = 0)
      ((c.slotValue s c.ins.a).asInt = BitVec.intMin 32 ∧ (c.slotValue s c.ins.b).asInt = -1)
      ⟨.int, (if remainder
        then BitVec.ofInt 32 ((c.slotValue s c.ins.a).asInt.toInt.tmod
          (c.slotValue s c.ins.b).asInt.toInt)
        else BitVec.ofInt 32 ((c.slotValue s c.ins.a).asInt.toInt.tdiv
          (c.slotValue s c.ins.b).asInt.toInt)).signExtend 64⟩ := by
  obtain ⟨s₁, htest, ha, hb, hbase, hmem, hz⟩ := reaches_intDivTest c s
  generalize (c.slotValue s c.ins.a).asInt = a at *
  generalize (c.slotValue s c.ins.b).asInt = b at *
  have hexec := Lib.X86.exec_idiv_signSplit s₁ .w32 (show Reg.r10 ≠ .rdx by decide) a b ha hb
  have hdiv {x : X64} : Extends c (x.idivReg32 kT) (storeResult32 (if remainder
      then (x.idivReg32 kT).movRegReg kA kC else x.idivReg32 kT)) :=
    (Extends.remainderMove c _ remainder).trans (Extends.storeResult32 c _)
  have hgo (hzero : b ≠ 0) :=
    (htest.noTrap (by rw [hz]; simpa using hzero)).emit (fun _ he => he.cdq) rfl
  constructor
  · intro hzero
    have hcdq {x : X64} : Extends c x x.cdq := .of_step fun _ he => he.cdq
    have hidiv {x : X64} : Extends c x (x.idivReg32 kT) := .of_step fun _ he => he.idivReg32 kT
    refine ⟨s₁, ?_, hmem, hbase⟩
    refine htest.run_trap hbody (hcdq.trans (hidiv.trans hdiv)) ?_
    rw [hz, hzero]
    rfl
  · intro hzero hover
    refine (hgo hzero).run_fault hbody (fun _ he => he.idivReg32 kT) hdiv ?_
    exact hexec.trans (if_pos (Or.inr hover))
  · intro hzero hover
    have hdone := (hgo hzero).emit (fun _ he => he.idivReg32 kT)
      (hexec.trans (if_neg (by simp only [hzero, hover, or_self, not_false_iff])))
    cases remainder with
    | false =>
      have hleaves := hdone.leaves32 hbody (by simp [State.setRegW, hbase])
      simpa [State.setRegW] using hleaves
    | true =>
      have hmove := hdone.emit (fun _ he => he.movRegReg kA kC) rfl
      have hleaves := hmove.leaves32 hbody
        (by simp [State.store, State.setRegW, Gpr.toReg, kA, hbase])
      simpa [State.store, State.setRegW, State.getReg, Gpr.toReg, kA, kC] using hleaves

theorem divSpec_long (hbody : emitOpBody c.ins.op {} = some (longDivRem {} remainder)) :
    DivSpec c s ((c.slotValue s c.ins.b).asLong = 0)
      ((c.slotValue s c.ins.a).asLong = BitVec.intMin 64 ∧ (c.slotValue s c.ins.b).asLong = -1)
      ⟨.long, if remainder
        then BitVec.ofInt 64 ((c.slotValue s c.ins.a).asLong.toInt.tmod
          (c.slotValue s c.ins.b).asLong.toInt)
        else BitVec.ofInt 64 ((c.slotValue s c.ins.a).asLong.toInt.tdiv
          (c.slotValue s c.ins.b).asLong.toInt)⟩ := by
  obtain ⟨s₁, htest, ha, hb, hbase, hmem, hz⟩ := reaches_longDivTest c s
  generalize (c.slotValue s c.ins.a).asLong = a at *
  generalize (c.slotValue s c.ins.b).asLong = b at *
  have hexec := Lib.X86.exec_idiv_signSplit s₁ .w64 (show Reg.r10 ≠ .rdx by decide) a b ha hb
  have hdiv {x : X64} : Extends c (x.idivReg64 kT) (storeResult64 (if remainder
      then (x.idivReg64 kT).movRegReg kA kC else x.idivReg64 kT) kTagLong) :=
    (Extends.remainderMove c _ remainder).trans (Extends.storeResult64 c _ kTagLong)
  have hgo (hzero : b ≠ 0) :=
    (htest.noTrap (by rw [hz]; simpa using hzero)).emit (fun _ he => he.cqo) rfl
  constructor
  · intro hzero
    have hcqo {x : X64} : Extends c x x.cqo := .of_step fun _ he => he.cqo
    have hidiv {x : X64} : Extends c x (x.idivReg64 kT) := .of_step fun _ he => he.idivReg64 kT
    refine ⟨s₁, ?_, hmem, hbase⟩
    refine htest.run_trap hbody (hcqo.trans (hidiv.trans hdiv)) ?_
    rw [hz, hzero]
    rfl
  · intro hzero hover
    refine (hgo hzero).run_fault hbody (fun _ he => he.idivReg64 kT) hdiv ?_
    exact hexec.trans (if_pos (Or.inr hover))
  · intro hzero hover
    have hdone := (hgo hzero).emit (fun _ he => he.idivReg64 kT)
      (hexec.trans (if_neg (by simp only [hzero, hover, or_self, not_false_iff])))
    cases remainder with
    | false =>
      have hleaves := hdone.leaves (t := .long) rfl hbody (by simp [State.setRegW, hbase])
      simpa [State.setRegW] using hleaves
    | true =>
      have hmove := hdone.emit (fun _ he => he.movRegReg kA kC) rfl
      have hleaves := hmove.leaves (t := .long) rfl hbody
        (by simp [State.store, State.setRegW, Gpr.toReg, kA, hbase])
      simpa [State.store, State.setRegW, State.getReg, Gpr.toReg, kA, kC] using hleaves

end Division

/-! ## Comparison bodies -/

section Comparison

variable {c : BodyCtx} {s : State}

/-- What the comparison bodies compute: the three-way result of the unsigned
comparison. -/
def unsignedCmp {w : Nat} (a b : BitVec w) : BitVec 32 :=
  (if b < a then 1 else 0) - (if a < b then 1 else 0)

/-- A condition as a byte-sized truth value. -/
def bit (w : Nat) (p : Bool) : BitVec w := if p then 1 else 0

theorem zero_append_bit (p : Bool) : (0 : BitVec 64).extractLsb' 8 56 ++ bit 8 p = bit 64 p := by
  cases p <;> decide

theorem append_bit_low (hi : BitVec 56) (p : Bool) :
    ((hi ++ bit 8 p).setWidth (8 * 1)).setWidth 32 = bit 32 p := by
  have hlow : (hi ++ bit 8 p).setWidth 8 = bit 8 p := BitVec.setWidth_append_eq_right
  show ((hi ++ bit 8 p).setWidth 8).setWidth 32 = bit 32 p
  rw [hlow]
  cases p <;> decide

/-- The code behind the compare turns the flags into the three-way result. -/
theorem leaves_cmpTail {x : X64} {s₁ : State} (h : Reaches c s x s₁)
    (hbase : s₁.gpr .rbp = s.gpr .rbp) (hzero : s₁.gpr .rcx = 0)
    (hbody : emitOpBody c.ins.op {} = some (storeResult64 (((((x.setcc kB kCcA).setcc kC
      kCcB).movzxR32R8 kC kC).aluRegReg32 kB .sub kC).movsxdReg kA kB) kTagInt)) :
    c.Leaves s ⟨.int, (bit 32 (Lib.X86.Cond.a.holds s₁.flags) -
      bit 32 (Lib.X86.Cond.b.holds s₁.flags)).signExtend 64⟩ := by
  obtain ⟨s₂, h₂, hrcx₂, hflags₂, hbase₂⟩ : ∃ s₂, Reaches c s (x.setcc kB kCcA) s₂ ∧
      s₂.gpr .rcx = bit 64 (Lib.X86.Cond.a.holds s₁.flags) ∧ s₂.flags = s₁.flags ∧
      s₂.gpr .rbp = s.gpr .rbp := by
    refine ⟨_, h.emit (fun _ he => he.setccA) rfl, ?_, rfl, hbase⟩
    rw [hzero]
    exact zero_append_bit _
  obtain ⟨s₃, h₃, hrcx₃, hrdx₃, hbase₃⟩ : ∃ s₃,
      Reaches c s (((x.setcc kB kCcA).setcc kC kCcB).movzxR32R8 kC kC) s₃ ∧
      s₃.gpr .rcx = bit 64 (Lib.X86.Cond.a.holds s₁.flags) ∧
      s₃.gpr .rdx = (bit 32 (Lib.X86.Cond.b.holds s₁.flags)).setWidth 64 ∧
      s₃.gpr .rbp = s.gpr .rbp := by
    refine ⟨_, (h₂.emit (fun _ he => he.setccB) rfl).emit (fun _ he => he.movzxR32R8 kC kC)
      rfl, hrcx₂, ?_, hbase₂⟩
    have hlow := append_bit_low ((s₂.gpr .rdx).extractLsb' 8 56) (Lib.X86.Cond.b.holds s₂.flags)
    rw [hflags₂] at hlow
    rw [← hlow, ← hflags₂]
    rfl
  have h₄ := h₃.emit (fun _ he => he.aluRegReg32 kB .sub kC) rfl
  have h₅ := h₄.emit (fun _ he => he.movsxdReg kA kB) rfl
  have hleaves := h₅.leaves (t := .int) rfl hbody hbase₃
  have ha : (s₃.gpr .rcx).setWidth 32 = bit 32 (Lib.X86.Cond.a.holds s₁.flags) := by
    rw [hrcx₃]
    cases Lib.X86.Cond.a.holds s₁.flags <;> decide
  have hb : (s₃.gpr .rdx).setWidth 32 = bit 32 (Lib.X86.Cond.b.holds s₁.flags) := by
    rw [hrdx₃, BitVec.setWidth_setWidth_of_le _ (by decide), BitVec.setWidth_eq]
  rw [← ha, ← hb]
  have hnarrow : (((s₃.gpr .rcx).setWidth 32 - (s₃.gpr .rdx).setWidth 32).setWidth
      64).setWidth 32 = (s₃.gpr .rcx).setWidth 32 - (s₃.gpr .rdx).setWidth 32 := by
    rw [BitVec.setWidth_setWidth_of_le _ (by decide), BitVec.setWidth_eq]
  rw [← hnarrow]
  exact hleaves

theorem cmp_flags {w : Nat} (a b : BitVec w) :
    bit 32 (Lib.X86.Cond.a.holds (Lib.X86.Alu.cmp.eval a b).2) -
      bit 32 (Lib.X86.Cond.b.holds (Lib.X86.Alu.cmp.eval a b).2) = unsignedCmp a b := by
  have hbelow : Lib.X86.Cond.b.holds (Lib.X86.Alu.cmp.eval a b).2 = decide (a < b) := rfl
  have habove : Lib.X86.Cond.a.holds (Lib.X86.Alu.cmp.eval a b).2 = decide (b < a) := by
    show (!decide (a < b) && !(a - b == 0)) = decide (b < a)
    have hsub : (a - b == 0) = decide (a = b) := by
      simp only [beq_eq_decide, BitVec.ofNat_eq_ofNat, BitVec.sub_eq_iff_eq_add, BitVec.zero_add]
    rw [hsub]
    simp only [BitVec.lt_def, ← BitVec.toNat_inj]
    rcases Nat.lt_trichotomy a.toNat b.toNat with h | h | h
    · simp [h, Nat.not_lt.mpr (Nat.le_of_lt h)]
    · simp [h]
    · simp [h, Nat.not_lt.mpr (Nat.le_of_lt h), Nat.ne_of_gt h]
  rw [habove, hbelow]
  simp only [bit, decide_eq_true_eq, unsignedCmp]

/-- Operands of one sign compare the same way signed and unsigned. -/
theorem toInt_lt_iff_of_msb_eq {w : Nat} {a b : BitVec w} (h : a.msb = b.msb) :
    a.toInt < b.toInt ↔ a.toNat < b.toNat := by
  rw [BitVec.toInt_eq_msb_cond, BitVec.toInt_eq_msb_cond, h]
  cases b.msb with
  | false =>
    simp only [Bool.false_eq_true, if_false]
    omega
  | true =>
    simp only [if_true]
    omega

/-- A negative operand is below a non-negative one signed, and above it unsigned. -/
theorem lt_of_msb_ne {w : Nat} {a b : BitVec w} (ha : a.msb = true) (hb : b.msb = false) :
    a.toInt < b.toInt ∧ b.toNat < a.toNat := by
  have hlt := a.isLt
  have hia : a.toInt = a.toNat - (2 ^ w : Nat) := by
    rw [BitVec.toInt_eq_msb_cond, ha, if_pos rfl]
  have hib : b.toInt = b.toNat := by
    rw [BitVec.toInt_eq_msb_cond, hb]
    rfl
  have hta : 2 ^ (w - 1) ≤ a.toNat := by simpa [BitVec.msb_eq_decide] using ha
  have htb : b.toNat < 2 ^ (w - 1) := by simpa [BitVec.msb_eq_decide] using hb
  omega

/-- The unsigned three-way result is the signed one exactly when the operands have
the same sign. -/
theorem unsignedCmp_eq_iff {w : Nat} (a b : BitVec w) :
    unsignedCmp a b = cmpKernel a b ↔ a.msb = b.msb := by
  simp only [unsignedCmp, cmpKernel, BitVec.lt_def, gt_iff_lt]
  constructor
  · intro heq
    cases ha : a.msb <;> cases hb : b.msb
    · rfl
    · obtain ⟨hs, hu⟩ := lt_of_msb_ne hb ha
      simp [hs, hu, Int.not_lt.mpr (Int.le_of_lt hs), Nat.not_lt.mpr (Nat.le_of_lt hu)] at heq
    · obtain ⟨hs, hu⟩ := lt_of_msb_ne ha hb
      simp [hs, hu, Int.not_lt.mpr (Int.le_of_lt hs), Nat.not_lt.mpr (Nat.le_of_lt hu)] at heq
    · rfl
  · intro hm
    simp only [toInt_lt_iff_of_msb_eq hm, toInt_lt_iff_of_msb_eq hm.symm]

theorem leaves_icmp (hbody : emitOpBody c.ins.op {} = some (compareBody {} false)) :
    c.Leaves s ⟨.int, (unsignedCmp (c.slotValue s c.ins.a).asInt
      (c.slotValue s c.ins.b).asInt).signExtend 64⟩ := by
  have hxor := (Reaches.nil c s).emit (fun _ he => he.xorRegReg32 kB kB) rfl
  have hload := (hxor.loadSlot32 .insA rfl kA).cmpSlot32 .insB rfl
  have hleaves := leaves_cmpTail hload rfl (by simp [Gpr.toReg, kA, kB, State.store,
    State.setRegW, State.load, State.getReg, Lib.X86.Alu.eval]) hbody
  simp only [State.setFlags_flags, cmp_flags] at hleaves
  simpa [Gpr.toReg, kA, kB, State.store, State.setRegW] using hleaves

theorem leaves_lcmp (hbody : emitOpBody c.ins.op {} = some (compareBody {} true)) :
    c.Leaves s ⟨.int, (unsignedCmp (c.slotValue s c.ins.a).asLong
      (c.slotValue s c.ins.b).asLong).signExtend 64⟩ := by
  have hxor := (Reaches.nil c s).emit (fun _ he => he.xorRegReg32 kB kB) rfl
  have hload := (hxor.loadSlot .insA rfl kA).cmpSlot .insB rfl
  have hleaves := leaves_cmpTail hload rfl (by simp [Gpr.toReg, kA, kB, State.store,
    State.setRegW, State.load, State.getReg, Lib.X86.Alu.eval]) hbody
  simp only [State.setFlags_flags, cmp_flags] at hleaves
  simpa [Gpr.toReg, kA, kB, State.store, State.setRegW] using hleaves

end Comparison

/-! ## Straight-line bodies -/

section Straight

variable {c : BodyCtx} {s : State}

theorem leaves_intBinary (op : Alu) (hop : op ≠ .cmp)
    (hbody : emitOpBody c.ins.op {} = some (intBinary {} op)) :
    c.Leaves s ⟨.int, (op.toMachine.eval (c.slotValue s c.ins.a).asInt
      (c.slotValue s c.ins.b).asInt).1.signExtend 64⟩ := by
  have halu := ((Reaches.nil c s).loadSlot32 .insA rfl kA).aluSlot32 .insB rfl op hop
  have hleaves := halu.leaves32 hbody rfl
  simpa [Gpr.toReg, kA] using hleaves

theorem leaves_longBinary (op : Alu) (hop : op ≠ .cmp)
    (hbody : emitOpBody c.ins.op {} = some (longBinary {} op)) :
    c.Leaves s ⟨.long, (op.toMachine.eval (c.slotValue s c.ins.a).asLong
      (c.slotValue s c.ins.b).asLong).1⟩ := by
  have halu := ((Reaches.nil c s).loadSlot .insA rfl kA).aluSlot .insB rfl op hop
  have hleaves := halu.leaves (t := .long) rfl hbody rfl
  simpa [Gpr.toReg, kA] using hleaves

theorem leaves_imul (hbody : emitOpBody c.ins.op {} = some (intMul {})) :
    c.Leaves s ⟨.int, ((c.slotValue s c.ins.a).asInt *
      (c.slotValue s c.ins.b).asInt).signExtend 64⟩ := by
  obtain ⟨f, hmul⟩ := ((Reaches.nil c s).loadSlot32 .insA rfl kA).imulSlot32 .insB rfl
  have hleaves := hmul.leaves32 hbody rfl
  simpa [Gpr.toReg, kA] using hleaves

theorem leaves_lmul (hbody : emitOpBody c.ins.op {} =
      some (storeResult64 ((({} : X64).loadSlot kA .insA).imulSlot kA .insB) kTagLong)) :
    c.Leaves s ⟨.long, (c.slotValue s c.ins.a).asLong * (c.slotValue s c.ins.b).asLong⟩ := by
  obtain ⟨f, hmul⟩ := ((Reaches.nil c s).loadSlot .insA rfl kA).imulSlot .insB rfl
  have hleaves := hmul.leaves (t := .long) rfl hbody rfl
  simpa [Gpr.toReg, kA] using hleaves

theorem leaves_ineg (hbody : emitOpBody c.ins.op {} =
      some (storeResult32 ((({} : X64).loadSlot32 kA .insA).negReg32 kA))) :
    c.Leaves s ⟨.int, (0 - (c.slotValue s c.ins.a).asInt).signExtend 64⟩ := by
  obtain ⟨f, hneg⟩ := ((Reaches.nil c s).loadSlot32 .insA rfl kA).negReg32
  have hleaves := hneg.leaves32 hbody rfl
  simpa [Gpr.toReg, kA] using hleaves

theorem leaves_lneg (hbody : emitOpBody c.ins.op {} =
      some (storeResult64 ((({} : X64).loadSlot kA .insA).negReg64 kA) kTagLong)) :
    c.Leaves s ⟨.long, 0 - (c.slotValue s c.ins.a).asLong⟩ := by
  obtain ⟨f, hneg⟩ := ((Reaches.nil c s).loadSlot .insA rfl kA).negReg64
  have hleaves := hneg.leaves (t := .long) rfl hbody rfl
  simpa [Gpr.toReg, kA] using hleaves

theorem leaves_iinc (hbody : emitOpBody c.ins.op {} = some (storeResult32
      ((({} : X64).loadSlot32 kA .insDst).addEaxImm32Hole .imm32 .insImm .plan))) :
    c.Leaves s ⟨.int, ((c.slotValue s c.ins.dst).asInt + c.ins.imm).signExtend 64⟩ := by
  obtain ⟨f, hadd⟩ := ((Reaches.nil c s).loadSlot32 .insDst rfl kA).addEaxImm
  have hleaves := hadd.leaves32 hbody rfl
  simpa [Gpr.toReg, kA] using hleaves

theorem count32 (v : BitVec 32) :
    (v.setWidth 64).toNat % 256 % 32 = (v &&& kIntShiftMask).toNat := by
  have hmask : kIntShiftMask.toNat = 2 ^ 5 - 1 := rfl
  have hv := v.isLt
  rw [BitVec.toNat_and, hmask, Nat.and_two_pow_sub_one_eq_mod, BitVec.toNat_setWidth]
  omega

/-- The processor masks the count register to six bits; the interpreter reads the
count as an `int`, which keeps those bits. -/
theorem count64 (v : BitVec 64) :
    v.toNat % 256 % 64 = (v.setWidth 32 &&& kLongShiftMask).toNat := by
  have hmask : kLongShiftMask.toNat = 2 ^ 6 - 1 := rfl
  rw [BitVec.toNat_and, hmask, Nat.and_two_pow_sub_one_eq_mod, BitVec.toNat_setWidth]
  omega

theorem leaves_intShift (sh : Shift) (hbody : emitOpBody c.ins.op {} = some (intShift {} sh)) :
    c.Leaves s ⟨.int, (sh.toMachine.eval (c.slotValue s c.ins.a).asInt
      ((c.slotValue s c.ins.b).asInt &&& kIntShiftMask).toNat).signExtend 64⟩ := by
  have hload := ((Reaches.nil c s).loadSlot32 .insA rfl kA).loadSlot32 .insB rfl kB
  obtain ⟨f, hshift⟩ := hload.shiftByCl32 sh
  have hleaves := hshift.leaves32 hbody rfl
  have hcount := count32 (c.slotValue s c.ins.b).asInt
  rw [← hcount]
  simpa [Gpr.toReg, kA, kB, -BitVec.toNat_setWidth] using hleaves

theorem leaves_longShift (sh : Shift) (hbody : emitOpBody c.ins.op {} = some (longShift {} sh)) :
    c.Leaves s ⟨.long, sh.toMachine.eval (c.slotValue s c.ins.a).asLong
      ((c.slotValue s c.ins.b).asInt &&& kLongShiftMask).toNat⟩ := by
  have hload := ((Reaches.nil c s).loadSlot .insA rfl kA).loadSlot .insB rfl kB
  obtain ⟨f, hshift⟩ := hload.shiftByCl64 sh
  have hleaves := hshift.leaves (t := .long) rfl hbody rfl
  have hcount := count64 (c.slotValue s c.ins.b).asLong
  have hint : (c.slotValue s c.ins.b).asInt = (c.slotValue s c.ins.b).asLong.setWidth 32 := rfl
  rw [hint, ← hcount]
  simpa [Gpr.toReg, kA, kB] using hleaves

theorem leaves_i2l (hbody : emitOpBody c.ins.op {} =
      some (storeResult64 (({} : X64).movsxdSlot kA .insA) kTagLong)) :
    c.Leaves s ⟨.long, (c.slotValue s c.ins.a).asInt.signExtend 64⟩ :=
  ((Reaches.nil c s).movsxdSlot .insA rfl).leaves rfl hbody rfl

theorem leaves_l2i (hbody : emitOpBody c.ins.op {} =
      some (storeResult64 (({} : X64).loadSlot32 kA .insA) kTagInt)) :
    c.Leaves s ⟨.int, (c.slotValue s c.ins.a).asInt.setWidth 64⟩ :=
  ((Reaches.nil c s).loadSlot32 .insA rfl kA).leaves rfl hbody rfl

theorem leaves_narrow (e : Ext) (v : BitVec 32) (hv : (match e with
        | .zx8 => ((c.slotValue s c.ins.a).asInt.setWidth 8).setWidth 32
        | .zx16 => ((c.slotValue s c.ins.a).asInt.setWidth 16).setWidth 32
        | .sx8 => ((c.slotValue s c.ins.a).asInt.setWidth 8).signExtend 32
        | .sx16 => ((c.slotValue s c.ins.a).asInt.setWidth 16).signExtend 32) = v)
    (hbody : emitOpBody c.ins.op {} = some (storeResult32 (({} : X64).extendLoad kA e .insA))) :
    c.Leaves s ⟨.int, v.signExtend 64⟩ := by
  have hext := (Reaches.nil c s).extendLoad .insA rfl e
  rw [hv] at hext
  have hleaves := hext.leaves32 hbody rfl
  simpa using hleaves

end Straight

end B2Compiler.Codegen
