import B2Compiler.Rbc.Program
import B2Compiler.Lib.X86

/-!
# The stencil emitter: code bytes with declared holes

The build-time macro assembler appends bytes to a buffer and records every
position the runtime has to patch as a hole.  `X64` is its state; each method
below is the source's method of the same name on that state.  `patch` is the
part of instantiation that fills the holes of one body.
-/

namespace B2Compiler.Codegen

open Rbc
open Lib.X86 (Byte)

inductive PatchKind where
  | imm32 | branchRel32 | slotOffset
  deriving DecidableEq, Repr

inductive PatchSource where
  | insDst | insA | insB | insImm | deoptIdSource
  deriving DecidableEq, Repr

/-- Which channel of the instantiation supplies the value. -/
inductive HoleTag where
  | plan | stream | layout
  deriving DecidableEq, Repr

/-- One patchable position; `imm` is the slot delta added to a slot offset. -/
structure ArchiveHole where
  codeOffset : Nat
  kind : PatchKind
  width : Nat
  source : PatchSource
  tag : HoleTag
  imm : BitVec 32
  deriving DecidableEq, Repr

/-! ## Emitter -/

/-- Registers the bodies use, by encoding. -/
inductive Gpr where
  | rax | rcx | rdx | r10
  deriving DecidableEq, Repr

def Gpr.code : Gpr → BitVec 8
  | .rax => 0
  | .rcx => 1
  | .rdx => 2
  | .r10 => 10

/-- Primary accumulator. -/
def kA : Gpr := .rax

/-- Secondary register: shift count, `setcc`. -/
def kB : Gpr := .rcx

/-- Tertiary register. -/
def kC : Gpr := .rdx

/-- Divisors. -/
def kT : Gpr := .r10

/-- Offset of the type tag in a slot. -/
def kDeltaTag : BitVec 32 := 0

/-- Offset of the payload in a slot. -/
def kDeltaPayload : BitVec 32 := 8

/-- Placeholder byte of an unfilled hole. -/
def kHoleFill : Byte := 0x66

/-- Emitter state: the code so far and its holes, both in emission order. -/
structure X64 where
  buf : List Byte := []
  holes : List ArchiveHole := []
  deriving DecidableEq, Repr

inductive Alu where
  | add | sub | and | or | xor | cmp
  deriving DecidableEq, Repr

inductive Shift where
  | shl | shr | sar
  deriving DecidableEq, Repr

inductive Ext where
  | zx8 | zx16 | sx8 | sx16
  deriving DecidableEq, Repr

/-- The four bytes of a 32-bit field, least significant first. -/
def le32 (d : BitVec 32) : List Byte :=
  [d.extractLsb' 0 8, d.extractLsb' 8 8, d.extractLsb' 16 8, d.extractLsb' 24 8]

def modrmRbpDisp (regBits : BitVec 8) : Byte := 0x80 ||| (regBits <<< 3) ||| 0x05

/-- ModRM byte of a register pair. -/
def modrmReg (reg rm : BitVec 8) : Byte := 0xC0 ||| ((reg &&& 7) <<< 3) ||| (rm &&& 7)

/-- Prefix byte; an absent register (`0xFF` in the source) is `none`. -/
def rex (w : Bool) (reg : Option Gpr := none) (rm : Option Gpr := none) : Byte :=
  0x40 ||| (if w then 0x08 else 0) |||
    (if reg.any (fun g => 8 ≤ g.code.toNat) then 0x04 else 0) |||
    (if rm.any (fun g => 8 ≤ g.code.toNat) then 0x01 else 0)

namespace X64

/-- Append bytes; the source's runs of `u8` calls. -/
def emit (x : X64) (bs : List Byte) : X64 := { x with buf := x.buf ++ bs }

/-- Record a four-byte hole and emit its placeholder. -/
def hole (x : X64) (kind : PatchKind) (source : PatchSource) (tag : HoleTag)
    (delta : BitVec 32 := 0) : X64 :=
  { buf := x.buf ++ List.replicate 4 kHoleFill
    holes := x.holes ++ [⟨x.buf.length, kind, 4, source, tag, delta⟩] }

def loadSlot (x : X64) (dst : Gpr) (src : PatchSource) : X64 :=
  (x.emit [rex true (some dst), 0x8B, modrmRbpDisp (dst.code &&& 7)]).hole
    .slotOffset src .stream kDeltaPayload

def loadSlot32 (x : X64) (dst : Gpr) (src : PatchSource) : X64 :=
  (x.emit [rex false (some dst), 0x8B, modrmRbpDisp (dst.code &&& 7)]).hole
    .slotOffset src .stream kDeltaPayload

def storeSlot (x : X64) (srcReg : Gpr) (src : PatchSource) (delta : BitVec 32) : X64 :=
  (x.emit [rex true (some srcReg), 0x89, modrmRbpDisp (srcReg.code &&& 7)]).hole
    .slotOffset src .stream delta

def storeImm32Slot (x : X64) (src : PatchSource) (imm : BitVec 32) (delta : BitVec 32) :
    X64 :=
  ((x.emit [0xC7, modrmRbpDisp 0]).hole .slotOffset src .stream delta).emit (le32 imm)

def movRegReg (x : X64) (dst src : Gpr) : X64 :=
  x.emit [rex true (some src) (some dst), 0x89, modrmReg src.code dst.code]

def movsxdReg (x : X64) (dst src : Gpr) : X64 :=
  x.emit [rex true (some dst) (some src), 0x63, modrmReg dst.code src.code]

def movsxdSlot (x : X64) (dst : Gpr) (src : PatchSource) : X64 :=
  (x.emit [rex true (some dst), 0x63, modrmRbpDisp (dst.code &&& 7)]).hole
    .slotOffset src .stream kDeltaPayload

def kOpRm : Alu → Byte
  | .add => 0x03
  | .sub => 0x2B
  | .and => 0x23
  | .or => 0x0B
  | .xor => 0x33
  | .cmp => 0x3B

/-- Opcode of the register-to-register form. -/
def kOpRr : Alu → Byte
  | .add => 0x01
  | .sub => 0x29
  | .and => 0x21
  | .or => 0x09
  | .xor => 0x31
  | .cmp => 0x39

def aluSlot (x : X64) (dst : Gpr) (op : Alu) (src : PatchSource) : X64 :=
  (x.emit [rex true (some dst), kOpRm op, modrmRbpDisp (dst.code &&& 7)]).hole
    .slotOffset src .stream kDeltaPayload

def aluSlot32 (x : X64) (dst : Gpr) (op : Alu) (src : PatchSource) : X64 :=
  (x.emit [rex false (some dst), kOpRm op, modrmRbpDisp (dst.code &&& 7)]).hole
    .slotOffset src .stream kDeltaPayload

def aluRegReg32 (x : X64) (dst : Gpr) (op : Alu) (src : Gpr) : X64 :=
  x.emit [rex false (some src) (some dst), kOpRr op, modrmReg src.code dst.code]

def addEaxImm32Hole (x : X64) (kind : PatchKind) (source : PatchSource) (tag : HoleTag) :
    X64 :=
  (x.emit [0x81, 0xC0]).hole kind source tag

def imulSlot (x : X64) (dst : Gpr) (src : PatchSource) : X64 :=
  (x.emit [rex true (some dst), 0x0F, 0xAF, modrmRbpDisp (dst.code &&& 7)]).hole
    .slotOffset src .stream kDeltaPayload

def imulSlot32 (x : X64) (dst : Gpr) (src : PatchSource) : X64 :=
  (x.emit [rex false (some dst), 0x0F, 0xAF, modrmRbpDisp (dst.code &&& 7)]).hole
    .slotOffset src .stream kDeltaPayload

def negReg32 (x : X64) (r : Gpr) : X64 :=
  x.emit [rex false (some r), 0xF7, 0xD8 ||| (r.code &&& 7)]

def negReg64 (x : X64) (r : Gpr) : X64 :=
  x.emit [rex true (some r), 0xF7, 0xD8 ||| (r.code &&& 7)]

def testReg32 (x : X64) (a b : Gpr) : X64 :=
  x.emit [rex false (some a) (some b), 0x85, modrmReg a.code b.code]

def xorRegReg32 (x : X64) (a b : Gpr) : X64 :=
  x.emit [rex false (some a) (some b), 0x31, modrmReg a.code b.code]

/-- Opcode extension of a shift. -/
def kShiftDigit : Shift → BitVec 8
  | .shl => 4
  | .shr => 5
  | .sar => 7

def shiftByCl (x : X64) (r : Gpr) (s : Shift) (wide : Bool) : X64 :=
  x.emit [rex wide (some r), 0xD3, 0xC0 ||| (kShiftDigit s <<< 3) ||| (r.code &&& 7)]

def cqo (x : X64) : X64 := x.emit [0x48, 0x99]

def cdq (x : X64) : X64 := x.emit [0x99]

def idivReg32 (x : X64) (r : Gpr) : X64 :=
  x.emit [rex false none (some r), 0xF7, 0xF8 ||| (r.code &&& 7)]

def idivReg64 (x : X64) (r : Gpr) : X64 :=
  x.emit [rex true none (some r), 0xF7, 0xF8 ||| (r.code &&& 7)]

def setcc (x : X64) (r : Gpr) (cc : BitVec 8) : X64 :=
  x.emit [0x0F, 0x90 + cc, 0xC0 ||| (r.code &&& 7)]

def movzxR32R8 (x : X64) (dst src : Gpr) : X64 :=
  x.emit [rex false (some dst) (some src), 0x0F, 0xB6, modrmReg dst.code src.code]

def kExtOp : Ext → Byte
  | .zx8 => 0xB6
  | .zx16 => 0xB7
  | .sx8 => 0xBE
  | .sx16 => 0xBF

def extendLoad (x : X64) (dst : Gpr) (e : Ext) (src : PatchSource) : X64 :=
  (x.emit [rex false (some dst), 0x0F, kExtOp e, modrmRbpDisp (dst.code &&& 7)]).hole
    .slotOffset src .stream kDeltaPayload

def jccHole (x : X64) (cc : BitVec 8) (source : PatchSource) (tag : HoleTag) : X64 :=
  (x.emit [0x0F, 0x80 + cc]).hole .branchRel32 source tag

end X64

/-! ## Instantiation of one body -/

/-- First slot byte of an activation. -/
def kSlotsBase : BitVec 32 := 152

/-- What the instantiator knows when it fills the holes of one body: the
instruction, the number of locals in front of the registers (at most 65535 in a
verified method), the position of the body in the code block and the position of
the covering deopt point's thunk. -/
structure BodyCtx where
  ins : Ins
  numLocals : BitVec 16
  base : BitVec 32
  thunkOffset : BitVec 32

namespace BodyCtx

/-- Byte offset of a flat slot index: sixteen bytes for each slot. -/
def slotOffset (flatIndex : BitVec 32) : BitVec 32 := kSlotsBase + flatIndex * 16

/-- Byte offset of a register's slot. -/
def regOffset (c : BodyCtx) (regIdx : BitVec 16) : BitVec 32 :=
  slotOffset (c.numLocals.setWidth 32 + regIdx.setWidth 32)

/-- The value put into a hole; `none` when the instantiator refuses it. -/
def holeValue (c : BodyCtx) (h : ArchiveHole) : Option (BitVec 32) :=
  let stream (r : BitVec 16) : Option (BitVec 32) :=
    some (if h.kind = .slotOffset then c.regOffset r + h.imm else r.setWidth 32)
  match h.tag with
  | .stream =>
    match h.source with
    | .insDst => stream c.ins.dst
    | .insA => stream c.ins.a
    | .insB => stream c.ins.b
    | .insImm => some c.ins.imm
    | .deoptIdSource => none
  | .plan =>
    match h.source with
    | .insImm => some c.ins.imm
    | _ => none
  | .layout => some (c.thunkOffset - (c.base + BitVec.ofNat 32 h.codeOffset + 4))

/-- Overwrite four bytes, least significant first. -/
def put32 (buf : List Byte) (pos : Nat) (v : BitVec 32) : List Byte :=
  (((buf.set pos (v.extractLsb' 0 8)).set (pos + 1) (v.extractLsb' 8 8)).set (pos + 2)
    (v.extractLsb' 16 8)).set (pos + 3) (v.extractLsb' 24 8)

/-- Fill the holes of a body in emission order. -/
def patch (c : BodyCtx) (x : X64) : Option (List Byte) :=
  x.holes.foldlM (fun buf h => (c.holeValue h).map (put32 buf h.codeOffset)) x.buf

end BodyCtx

end B2Compiler.Codegen
