import B2Compiler.Codegen.X64Emitter
import B2Compiler.Ir.Graph
import Mathlib.Data.List.Sort

/-!
# The phi moves of the T2 lowering

At the end of a predecessor the lowering stores every phi of the merge, one phi
after another in node order: through a slot-to-slot copy, or, for a phi the
register allocator took, through its register.  This module has the emitter, the
assignment of slots and registers, the emitted bytes and the instructions they
decode to on the machine of `Lib.X86`.
-/

namespace B2Compiler.Codegen.T2

open Ir (Graph NodeId NodeKind)
open Lib.X86 List Option

/-! ## The runtime emitter -/

/-- 32-bit register names of the emitter. -/
inductive Reg32 where
  | eax | ecx | edx | esi | edi | r8d | r9d | r10d | r11d
  deriving DecidableEq, Repr

/-- Encoding of a register. -/
def Reg32.code : Reg32 → Byte
  | .eax => 0
  | .ecx => 1
  | .edx => 2
  | .esi => 6
  | .edi => 7
  | .r8d => 8
  | .r9d => 9
  | .r10d => 10
  | .r11d => 11

/-- The machine register a name stands for. -/
def Reg32.toReg : Reg32 → Reg
  | .eax => .rax
  | .ecx => .rcx
  | .edx => .rdx
  | .esi => .rsi
  | .edi => .rdi
  | .r8d => .r8
  | .r9d => .r9
  | .r10d => .r10
  | .r11d => .r11

/-- Prefix byte, left out when no bit is set. -/
def rex (w r x b : Bool) : List Byte :=
  let v : Byte := 0x40 ||| (if w then 8 else 0) ||| (if r then 4 else 0) |||
    (if x then 2 else 0) ||| (if b then 1 else 0)
  if v != 0x40 then [v] else []

def modrm (mode reg rm : Byte) : Byte := (mode <<< 6) ||| ((reg &&& 7) <<< 3) ||| (rm &&& 7)

def imm32 (v : BitVec 32) : List Byte := le32 v

/-- The extended registers are announced by the last prefix bit, which on the
machine extends the base of the memory operand and not the register. -/
def loadRbpDisp32 (dst : Reg32) (disp : BitVec 32) : List Byte :=
  rex false false false (Reg32.r8d.code ≤ dst.code) ++
    ([0x8B, modrm 2 (dst.code &&& 7) 5] ++ imm32 disp)

def storeRbpDisp32 (src : Reg32) (disp : BitVec 32) : List Byte :=
  rex false false false (Reg32.r8d.code ≤ src.code) ++
    ([0x89, modrm 2 (src.code &&& 7) 5] ++ imm32 disp)

/-- 64-bit forms; the phi moves use them with `rax` only. -/
def loadRbpDisp64 (disp : BitVec 32) : List Byte :=
  rex true false false false ++ ([0x8B, modrm 2 0 5] ++ imm32 disp)

def storeRbpDisp64 (disp : BitVec 32) : List Byte :=
  rex true false false false ++ ([0x89, modrm 2 0 5] ++ imm32 disp)

def movEaxImm32 (v : BitVec 32) : List Byte := 0xB8 :: imm32 v

def xorEaxEax : List Byte := [0x31, modrm 3 0 0]

/-! ## Slots and registers -/

def slotOff (slot : Nat) : BitVec 32 := kSlotsBase + BitVec.ofNat 32 slot * 16

def slotPayload (slot : Nat) : BitVec 32 := slotOff slot + 8

def slotTag (slot : Nat) : BitVec 32 := slotOff slot

/-- The tag of an `int` value. -/
def kRTypeInt : BitVec 32 := 1

def reg32Of : Nat → Reg32
  | 0 => .eax
  | 1 => .ecx
  | 2 => .edx
  | 3 => .esi
  | 4 => .edi
  | 5 => .r8d
  | 6 => .r9d
  | 7 => .r10d
  | _ => .eax

/-- First register index the allocator gives out, and the one past the last. -/
def kRegStart : Nat := 5

def kRegEnd : Nat := 8

/-- The sixteen bytes of a slot have 32-bit displacements. -/
def InFrame (slot : Nat) : Prop := 152 + 16 * slot + 16 ≤ 2 ^ 31

instance (slot : Nat) : Decidable (InFrame slot) := inferInstanceAs (Decidable (_ ≤ _))

/-- Where the values of a graph live: every value in a slot of its own, some of them
also in a register of their own. -/
structure Assignment where
  slotOf : NodeId → Option Nat
  regOf : NodeId → Option Nat
  slotOf_inj : ∀ {n m x}, slotOf n = some x → slotOf m = some x → n = m
  slotOf_inFrame : ∀ {n x}, slotOf n = some x → InFrame x
  regOf_inj : ∀ {n m r}, regOf n = some r → regOf m = some r → n = m
  regOf_range : ∀ {n r}, regOf n = some r → kRegStart ≤ r ∧ r < kRegEnd
  slot_of_reg : ∀ {n r}, regOf n = some r → ∃ x, slotOf n = some x

/-! ## The allocator -/

/-- Kinds that leave a value. -/
def isValueNode (k : NodeKind) : Bool :=
  match k with
  | .constantI | .constantL | .constantF | .constantD
  | .constantNull | .constantSym | .parameter
  | .addI | .subI | .mulI | .divI | .remI
  | .negI | .shlI | .shrI | .ushrI | .andI | .orI | .xorI
  | .addL | .subL | .mulL | .andL | .orL | .xorL | .negL
  | .cmpI | .cmpL | .cmpFl | .cmpFg | .cmpDl | .cmpDg
  | .i2l | .l2i | .i2b | .i2c | .i2s
  | .phi | .undef
  | .not | .isNull | .refEq
  | .eqI | .neI | .ltI | .leI | .gtI | .geI
  | .loadField | .loadStatic | .loadElem | .arrayLength
  | .instanceOf | .loadException
  | .callStatic | .callVirtual | .callInterface
  | .new | .newArray | .newRefArray | .materialize => true
  | _ => false

/-- The live parameters, by parameter index. -/
def params (g : Graph) : List NodeId :=
  (((range g.nodeCount).filter fun n => g.live n && g.kind n == .parameter).map
    fun n => ((g.node n).payload, n)).insertionSort
      (fun p q => p.1 < q.1 ∨ (p.1 = q.1 ∧ p.2 ≤ q.2)) |>.map Prod.snd

/-- Nodes in the order in which they get slots: the parameters, then the other values. -/
def slotOrder (g : Graph) : List NodeId :=
  params g ++ (range g.nodeCount).filter fun n =>
    g.live n && g.kind n != .parameter && isValueNode (g.kind n)

/-- Slots are given out one after another. -/
def assignSlots (g : Graph) (n : NodeId) : Option Nat := (slotOrder g).idxOf? n

/-- The live phis of live loop headers. -/
def loopPhis (g : Graph) : List NodeId :=
  (range g.nodeCount).filter fun n =>
    g.live n && g.kind n == .phi &&
      (g.input n 0).any fun region => g.live region && g.kind region == .loopBegin

/-- The first loop phis get the registers. -/
def assignRegisters (g : Graph) (n : NodeId) : Option Nat :=
  (((loopPhis g).take (kRegEnd - kRegStart)).idxOf? n).map (kRegStart + ·)

theorem idxOf?_inj {l : List Nat} {n m i : Nat} (hn : l.idxOf? n = some i)
    (hm : l.idxOf? m = some i) : n = m := by
  obtain ⟨h, hget, -⟩ := idxOf?_eq_some_iff.mp hn
  obtain ⟨h', hget', -⟩ := idxOf?_eq_some_iff.mp hm
  rw [← hget, hget']

theorem idxOf?_lt {l : List Nat} {n i : Nat} (h : l.idxOf? n = some i) : i < l.length := by
  obtain ⟨hi, -⟩ := idxOf?_eq_some_iff.mp h
  exact hi

theorem slotOrder_length (g : Graph) : (slotOrder g).length ≤ g.nodeCount := by
  have hsplit := length_eq_length_filter_add (l := range g.nodeCount)
    fun n => g.live n && g.kind n == .parameter
  have hothers : ((range g.nodeCount).filter fun n =>
      g.live n && g.kind n != .parameter && isValueNode (g.kind n)).length ≤
      ((range g.nodeCount).filter fun n => !(g.live n && g.kind n == .parameter)).length := by
    refine List.Sublist.length_le (monotone_filter_right _ ?_)
    intro n h
    simp only [Bool.and_eq_true, bne_iff_ne, ne_eq] at h
    simp [h.1.2]
  simp only [slotOrder, params, length_append, length_map, length_insertionSort]
  rw [length_range] at hsplit
  exact (Nat.add_le_add_left hothers _).trans_eq hsplit.symm

/-- The assignment the lowering computes, for graphs whose slots fit the displacement. -/
def allocate (g : Graph) (hsize : InFrame g.nodeCount) : Assignment where
  slotOf := assignSlots g
  regOf := assignRegisters g
  slotOf_inj hn hm := idxOf?_inj hn hm
  slotOf_inFrame {n x} h := by
    have hlt := idxOf?_lt h
    have hlen := slotOrder_length g
    unfold InFrame at hsize ⊢
    omega
  regOf_inj {n m r} hn hm := by
    simp only [assignRegisters, map_eq_some_iff] at hn hm
    obtain ⟨i, hi, rfl⟩ := hn
    obtain ⟨j, hj, heq⟩ := hm
    obtain rfl : j = i := by omega
    exact idxOf?_inj hi hj
  regOf_range {n r} h := by
    simp only [assignRegisters, map_eq_some_iff] at h
    obtain ⟨i, hi, rfl⟩ := h
    have hlt := idxOf?_lt hi
    rw [length_take] at hlt
    unfold kRegStart kRegEnd at *
    omega
  slot_of_reg {n r} h := by
    simp only [assignRegisters, map_eq_some_iff] at h
    obtain ⟨i, hi, -⟩ := h
    have hmem : n ∈ loopPhis g := by
      obtain ⟨_, hget, -⟩ := idxOf?_eq_some_iff.mp hi
      exact mem_of_mem_take (hget ▸ getElem_mem _)
    simp only [loopPhis, mem_filter, mem_range, Bool.and_eq_true, beq_iff_eq] at hmem
    have hvalue : n ∈ slotOrder g := by
      simp only [slotOrder, mem_append, mem_filter, mem_range, Bool.and_eq_true, bne_iff_ne, ne_eq]
      refine Or.inr ⟨hmem.1, ⟨hmem.2.1.1, ?_⟩, ?_⟩
      · rw [hmem.2.1.2]
        decide
      · rw [hmem.2.1.2]
        rfl
    exact isSome_iff_exists.mp (isSome_idxOf?.mpr hvalue)

/-! ## Emission -/

def copySlot (dstSlot srcSlot : Nat) : List Byte :=
  loadRbpDisp64 (slotPayload srcSlot) ++ (storeRbpDisp64 (slotPayload dstSlot) ++
    (loadRbpDisp32 .eax (slotTag srcSlot) ++ storeRbpDisp32 .eax (slotTag dstSlot)))

/-- The move of one phi: the two nodes and their slots. -/
structure PhiMove where
  phi : NodeId
  src : NodeId
  dstSlot : Nat
  srcSlot : Nat
  deriving DecidableEq, Repr

/-- What has to be moved for node `n`, if it is a phi of the merge. -/
def phiMove (g : Graph) (a : Assignment) (merge : NodeId) (predIdx : Nat) (n : NodeId) :
    Option PhiMove :=
  if g.isDead n || g.kind n != .phi then none
  else if g.input n 0 != some merge then none
  else do
    let srcNode ← g.input n (predIdx + 1)
    let srcSlot ← a.slotOf srcNode
    let dstSlot ← a.slotOf n
    return ⟨n, srcNode, dstSlot, srcSlot⟩

/-- Load the source of a phi into the phi's register.  The register pair is emitted
without a prefix. -/
def fillReg (a : Assignment) (m : PhiMove) (phiReg : Reg32) : List Byte :=
  match a.regOf m.src with
  | some r =>
    let sr := reg32Of r
    if sr != phiReg then [0x89, modrm 3 (sr.code &&& 7) (phiReg.code &&& 7)] else []
  | none => loadRbpDisp32 phiReg (slotPayload m.srcSlot)

/-- Store the phi's register to the phi's slot, as an `int`. -/
def spillReg (phiReg : Reg32) (dstSlot : Nat) : List Byte :=
  storeRbpDisp32 phiReg (slotPayload dstSlot) ++ (xorEaxEax ++
    (storeRbpDisp32 .eax (slotPayload dstSlot + 4) ++
      (movEaxImm32 kRTypeInt ++ storeRbpDisp32 .eax (slotTag dstSlot))))

def emitPhiMove (a : Assignment) (m : PhiMove) : List Byte :=
  match a.regOf m.phi with
  | some r => fillReg a m (reg32Of r) ++ spillReg (reg32Of r) m.dstSlot
  | none => copySlot m.dstSlot m.srcSlot

/-- The moves of a predecessor edge, in node order. -/
def phiMoves (g : Graph) (a : Assignment) (merge : NodeId) (predIdx : Nat) : List PhiMove :=
  (range g.nodeCount).filterMap (phiMove g a merge predIdx)

def emitPhiMovesForPred (g : Graph) (a : Assignment) (merge : NodeId) (predIdx : Nat) : List Byte :=
  (phiMoves g a merge predIdx).flatMap (emitPhiMove a)

/-! ## The emitted instructions -/

/-- The register the machine reads from a ModRM field the prefix does not extend. -/
def lowReg (r : Reg32) : Reg := regOf false ((r.code &&& 7).extractLsb' 0 3)

/-- Base operand of the displacement forms: the prefix bit of an extended register
turns `rbp` into `r13`. -/
def slotOperand (r : Reg32) (disp : BitVec 32) : RM :=
  if Reg32.r8d.code ≤ r.code then .memR13 disp else .mem disp

theorem decode_loadRbpDisp32 (dst : Reg32) (disp : BitVec 32) (tail : List Byte) :
    decode (loadRbpDisp32 dst disp ++ tail) =
      some (.mov .w32 (lowReg dst) (slotOperand dst disp), tail) := by
  have hfield (b0 b1 b2 b3 : Byte) : decode (rex false false false (Reg32.r8d.code ≤ dst.code) ++
          ([0x8B, modrm 2 (dst.code &&& 7) 5] ++ [b0, b1, b2, b3]) ++ tail) =
        some (.mov .w32 (lowReg dst) (slotOperand dst (b3 ++ b2 ++ b1 ++ b0)), tail) := by
    cases dst <;> rfl
  have h := hfield (disp.extractLsb' 0 8) (disp.extractLsb' 8 8) (disp.extractLsb' 16 8)
    (disp.extractLsb' 24 8)
  rwa [bytes32] at h

theorem decode_storeRbpDisp32 (src : Reg32) (disp : BitVec 32) (tail : List Byte) :
    decode (storeRbpDisp32 src disp ++ tail) =
      some (.movTo .w32 (slotOperand src disp) (lowReg src), tail) := by
  have hfield (b0 b1 b2 b3 : Byte) : decode (rex false false false (Reg32.r8d.code ≤ src.code) ++
          ([0x89, modrm 2 (src.code &&& 7) 5] ++ [b0, b1, b2, b3]) ++ tail) =
        some (.movTo .w32 (slotOperand src (b3 ++ b2 ++ b1 ++ b0)) (lowReg src), tail) := by
    cases src <;> rfl
  have h := hfield (disp.extractLsb' 0 8) (disp.extractLsb' 8 8) (disp.extractLsb' 16 8)
    (disp.extractLsb' 24 8)
  rwa [bytes32] at h

theorem decode_loadRbpDisp64 (disp : BitVec 32) (tail : List Byte) :
    decode (loadRbpDisp64 disp ++ tail) = some (.mov .w64 .rax (.mem disp), tail) := by
  have hfield (b0 b1 b2 b3 : Byte) :
      decode (rex true false false false ++ ([0x8B, modrm 2 0 5] ++ [b0, b1, b2, b3]) ++ tail) =
        some (.mov .w64 .rax (.mem (b3 ++ b2 ++ b1 ++ b0)), tail) := rfl
  have h := hfield (disp.extractLsb' 0 8) (disp.extractLsb' 8 8) (disp.extractLsb' 16 8)
    (disp.extractLsb' 24 8)
  rwa [bytes32] at h

theorem decode_storeRbpDisp64 (disp : BitVec 32) (tail : List Byte) :
    decode (storeRbpDisp64 disp ++ tail) = some (.movTo .w64 (.mem disp) .rax, tail) := by
  have hfield (b0 b1 b2 b3 : Byte) :
      decode (rex true false false false ++ ([0x89, modrm 2 0 5] ++ [b0, b1, b2, b3]) ++ tail) =
        some (.movTo .w64 (.mem (b3 ++ b2 ++ b1 ++ b0)) .rax, tail) := rfl
  have h := hfield (disp.extractLsb' 0 8) (disp.extractLsb' 8 8) (disp.extractLsb' 16 8)
    (disp.extractLsb' 24 8)
  rwa [bytes32] at h

theorem decode_movEaxImm32 (v : BitVec 32) (tail : List Byte) :
    decode (movEaxImm32 v ++ tail) = some (.movImm .w32 (.reg .rax) v, tail) := by
  have hfield (b0 b1 b2 b3 : Byte) : decode (0xB8 :: [b0, b1, b2, b3] ++ tail) =
        some (.movImm .w32 (.reg .rax) (b3 ++ b2 ++ b1 ++ b0), tail) := rfl
  have h := hfield (v.extractLsb' 0 8) (v.extractLsb' 8 8) (v.extractLsb' 16 8) (v.extractLsb' 24 8)
  rwa [bytes32] at h

theorem decode_xorEaxEax (tail : List Byte) :
    decode (xorEaxEax ++ tail) = some (.aluTo .w32 .xor (.reg .rax) .rax, tail) := rfl

theorem decode_movRegReg (dst src : Reg32) (tail : List Byte) :
    decode ([0x89, modrm 3 (src.code &&& 7) (dst.code &&& 7)] ++ tail) =
      some (.movTo .w32 (.reg (lowReg dst)) (lowReg src), tail) := by
  cases dst <;> cases src <;> rfl

end B2Compiler.Codegen.T2
