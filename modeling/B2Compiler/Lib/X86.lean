import Mathlib.Tactic.Ring

/-!
# A block-level model of x86-64 integer code

Registers, status flags and a byte-addressed memory; a decoder for the register,
`[rbp + disp32]` and `[r13 + disp32]` forms of the integer instructions; and the
execution of a block of bytes up to its end, its first taken jump, or a divide error.
Little-endian accesses are stated byte-wise once and used through
`read32_write32` and `read64_write64` afterwards.

Flags the manual leaves undefined after an instruction keep their old value, and
the parity and auxiliary flags are not kept, so the parity conditions do not
decode.
-/

namespace B2Compiler.Lib.X86

open List

/-! ## State -/

/-- General-purpose registers, in encoding order. -/
inductive Reg where
  | rax | rcx | rdx | rbx | rsp | rbp | rsi | rdi
  | r8 | r9 | r10 | r11 | r12 | r13 | r14 | r15
  deriving DecidableEq, Repr

/-- The register of a four-bit encoding. -/
def Reg.ofCode (c : BitVec 4) : Reg :=
  match c.toNat with
  | 0 => .rax | 1 => .rcx | 2 => .rdx | 3 => .rbx | 4 => .rsp | 5 => .rbp | 6 => .rsi
  | 7 => .rdi | 8 => .r8 | 9 => .r9 | 10 => .r10 | 11 => .r11 | 12 => .r12 | 13 => .r13
  | 14 => .r14 | _ => .r15

/-- The status flags the modelled conditions read. -/
structure Flags where
  cf : Bool
  zf : Bool
  sf : Bool
  of : Bool
  deriving DecidableEq, Repr

abbrev Byte := BitVec 8

abbrev Addr := BitVec 64

/-- Machine state of a block. -/
structure State where
  gpr : Reg → BitVec 64
  flags : Flags
  mem : Addr → Byte

/-! ## Memory -/

def read16 (m : Addr → Byte) (a : Addr) : BitVec 16 := m (a + 1) ++ m a

def read32 (m : Addr → Byte) (a : Addr) : BitVec 32 :=
  m (a + 3) ++ m (a + 2) ++ m (a + 1) ++ m a

def read64 (m : Addr → Byte) (a : Addr) : BitVec 64 :=
  m (a + 7) ++ m (a + 6) ++ m (a + 5) ++ m (a + 4) ++ m (a + 3) ++ m (a + 2) ++ m (a + 1)
    ++ m a

/-- Store the low `n` bytes of `v`, least significant first. -/
def write {w : Nat} (m : Addr → Byte) (a : Addr) (n : Nat) (v : BitVec w) : Addr → Byte :=
  fun x => if (x - a).toNat < n then v.extractLsb' (8 * (x - a).toNat) 8 else m x

variable {w i j : Nat} {bs : List Byte}

theorem write_apply_add (m : Addr → Byte) (a d : Addr) (n : Nat) (v : BitVec w) (hd : d.toNat < n) :
    write m a n v (a + d) = v.extractLsb' (8 * d.toNat) 8 := by
  have hsub : a + d - a = d := by rw [BitVec.add_comm, BitVec.add_sub_cancel]
  simp only [write, hsub, hd, if_true]

theorem write_apply_of_le (m : Addr → Byte) (a x : Addr) (n : Nat) (v : BitVec w)
    (hx : n ≤ (x - a).toNat) : write m a n v x = m x := by
  simp only [write, Nat.not_lt.mpr hx, if_false]

theorem bytes32 (v : BitVec 32) :
    v.extractLsb' 24 8 ++ v.extractLsb' 16 8 ++ v.extractLsb' 8 8 ++ v.extractLsb' 0 8 = v := by
  iterate 3 rw [BitVec.extractLsb'_append_extractLsb'_eq_extractLsb' (by rfl)]
  exact BitVec.extractLsb'_eq_self

theorem bytes64 (v : BitVec 64) :
    v.extractLsb' 56 8 ++ v.extractLsb' 48 8 ++ v.extractLsb' 40 8 ++ v.extractLsb' 32 8 ++
      v.extractLsb' 24 8 ++ v.extractLsb' 16 8 ++ v.extractLsb' 8 8 ++ v.extractLsb' 0 8 = v := by
  iterate 7 rw [BitVec.extractLsb'_append_extractLsb'_eq_extractLsb' (by rfl)]
  exact BitVec.extractLsb'_eq_self

section

variable (m : Addr → Byte)
include m

theorem read32_write32 (a : Addr) (v : BitVec 32) : read32 (write m a 4 v) a = v := by
  have h0 := write_apply_add m a 0 4 v (by decide)
  have h1 := write_apply_add m a 1 4 v (by decide)
  have h2 := write_apply_add m a 2 4 v (by decide)
  have h3 := write_apply_add m a 3 4 v (by decide)
  simp only [BitVec.ofNat_eq_ofNat, BitVec.add_zero] at h0
  rw [read32, h0, h1, h2, h3]
  exact bytes32 v

theorem read64_write64 (a : Addr) (v : BitVec 64) : read64 (write m a 8 v) a = v := by
  have h0 := write_apply_add m a 0 8 v (by decide)
  have h1 := write_apply_add m a 1 8 v (by decide)
  have h2 := write_apply_add m a 2 8 v (by decide)
  have h3 := write_apply_add m a 3 8 v (by decide)
  have h4 := write_apply_add m a 4 8 v (by decide)
  have h5 := write_apply_add m a 5 8 v (by decide)
  have h6 := write_apply_add m a 6 8 v (by decide)
  have h7 := write_apply_add m a 7 8 v (by decide)
  simp only [BitVec.ofNat_eq_ofNat, BitVec.add_zero] at h0
  rw [read64, h0, h1, h2, h3, h4, h5, h6, h7]
  exact bytes64 v

/-- A 64-bit load none of whose bytes lies in a store reads the old memory. -/
theorem read64_write_of_disjoint (a b : Addr) (n : Nat) (v : BitVec w)
    (h : ∀ k : Nat, k < 8 → n ≤ (b + BitVec.ofNat 64 k - a).toNat) :
    read64 (write m a n v) b = read64 m b := by
  have hb (k : Nat) (hk : k < 8) :
      write m a n v (b + BitVec.ofNat 64 k) = m (b + BitVec.ofNat 64 k) :=
    write_apply_of_le m a _ n v (h k hk)
  have h0 := hb 0 (by decide)
  have h1 := hb 1 (by decide)
  have h2 := hb 2 (by decide)
  have h3 := hb 3 (by decide)
  have h4 := hb 4 (by decide)
  have h5 := hb 5 (by decide)
  have h6 := hb 6 (by decide)
  have h7 := hb 7 (by decide)
  simp only [BitVec.add_zero] at h0
  simp only [read64, BitVec.ofNat_eq_ofNat, h0, h1, h2, h3, h4, h5, h6, h7]

/-- A store does not reach a byte beside it; both are given by their offsets from a base. -/
theorem write_apply_off (base : Addr) (n : Nat) (v : BitVec w)
    (hi : i + n < 2 ^ 63) (hj : j < 2 ^ 63) (h : j < i ∨ i + n ≤ j) :
    write m (base + BitVec.ofNat 64 i) n v (base + BitVec.ofNat 64 j) =
      m (base + BitVec.ofNat 64 j) := by
  refine write_apply_of_le m _ _ n v ?_
  have hbase := base.isLt
  simp only [BitVec.toNat_sub, BitVec.toNat_add, BitVec.toNat_ofNat]
  omega

theorem read32_write_off (base : Addr) (n : Nat) (v : BitVec w)
    (hi : i + n < 2 ^ 63) (hj : j + 4 < 2 ^ 63) (h : j + 4 ≤ i ∨ i + n ≤ j) :
    read32 (write m (base + BitVec.ofNat 64 i) n v) (base + BitVec.ofNat 64 j) =
      read32 m (base + BitVec.ofNat 64 j) := by
  have hbyte (k : Nat) (hk : k < 4) :
      write m (base + BitVec.ofNat 64 i) n v (base + BitVec.ofNat 64 j + BitVec.ofNat 64 k) =
        m (base + BitVec.ofNat 64 j + BitVec.ofNat 64 k) := by
    rw [BitVec.add_assoc, ← BitVec.ofNat_add]
    exact write_apply_off m base n v hi (by omega) (by omega)
  have h0 := hbyte 0 (by decide)
  have h1 := hbyte 1 (by decide)
  have h2 := hbyte 2 (by decide)
  have h3 := hbyte 3 (by decide)
  simp only [BitVec.ofNat_eq_ofNat, BitVec.add_zero] at h0 h1 h2 h3
  simp only [read32, BitVec.ofNat_eq_ofNat, h0, h1, h2, h3]

theorem read64_write_off (base : Addr) (n : Nat) (v : BitVec w)
    (hi : i + n < 2 ^ 63) (hj : j + 8 < 2 ^ 63) (h : j + 8 ≤ i ∨ i + n ≤ j) :
    read64 (write m (base + BitVec.ofNat 64 i) n v) (base + BitVec.ofNat 64 j) =
      read64 m (base + BitVec.ofNat 64 j) := by
  refine read64_write_of_disjoint m _ _ n v fun k hk => ?_
  have hbase := base.isLt
  simp only [BitVec.toNat_sub, BitVec.toNat_add, BitVec.toNat_ofNat]
  omega

theorem setWidth_read64 (a : Addr) : (read64 m a).setWidth 32 = read32 m a := by
  refine BitVec.eq_of_getLsbD_eq fun i hi => ?_
  simp only [read64, read32, BitVec.getLsbD_setWidth, BitVec.getLsbD_append, hi, decide_true,
    Bool.true_and]
  split_ifs <;> first | rfl | omega

end

/-! ## Instructions -/

inductive Width where
  | w32 | w64
  deriving DecidableEq, Repr

@[reducible] def Width.bits : Width → Nat
  | .w32 => 32
  | .w64 => 64

/-- A register, or the memory operand `[rbp + disp]` or `[r13 + disp]`. -/
inductive RM where
  | reg (r : Reg)
  | mem (disp : BitVec 32)
  | memR13 (disp : BitVec 32)
  deriving DecidableEq, Repr

inductive Alu where
  | add | or | and | sub | xor | cmp
  deriving DecidableEq, Repr

inductive Shift where
  | shl | shr | sar
  deriving DecidableEq, Repr

/-- Conditions of `jcc` and `setcc`. -/
inductive Cond where
  | o | no | b | ae | e | ne | be | a | s | ns | l | ge | le | g
  deriving DecidableEq, Repr

inductive Instr where
  | mov (w : Width) (dst : Reg) (src : RM)
  | movTo (w : Width) (dst : RM) (src : Reg)
  | movImm (w : Width) (dst : RM) (imm : BitVec 32)
  | movsxd (dst : Reg) (src : RM)
  | alu (w : Width) (op : Alu) (dst : Reg) (src : RM)
  | aluTo (w : Width) (op : Alu) (dst : RM) (src : Reg)
  | aluImm (w : Width) (op : Alu) (dst : RM) (imm : BitVec 32)
  | test (w : Width) (a : RM) (b : Reg)
  | imul (w : Width) (dst : Reg) (src : RM)
  | neg (w : Width) (dst : RM)
  | idiv (w : Width) (src : RM)
  | shiftCl (w : Width) (op : Shift) (dst : RM)
  | signSplit (w : Width)
  | setcc (c : Cond) (dst : Reg)
  | extend (signed : Bool) (bytes : Nat) (dst : Reg) (src : RM)
  | jcc (c : Cond) (rel : BitVec 32)
  | jmp (rel : BitVec 32)
  deriving DecidableEq, Repr

/-! ## Decoding -/

/-- Prefix bits of an instruction: operand width and the register extensions. -/
structure Rex where
  w : Bool := false
  r : Bool := false
  x : Bool := false
  b : Bool := false
  deriving DecidableEq, Repr

def Rex.width (p : Rex) : Width := if p.w then .w64 else .w32

def takeRex : List Byte → Rex × List Byte
  | p :: rest =>
    if p &&& 0xF0 = 0x40 then
      (⟨p.getLsbD 3, p.getLsbD 2, p.getLsbD 1, p.getLsbD 0⟩, rest)
    else ({}, p :: rest)
  | [] => ({}, [])

/-- Little-endian 32-bit field. -/
def take32 : List Byte → Option (BitVec 32 × List Byte)
  | b0 :: b1 :: b2 :: b3 :: rest => some (b3 ++ b2 ++ b1 ++ b0, rest)
  | _ => none

/-- A register number: three bits of a ModRM byte and a prefix bit. -/
def regOf (ext : Bool) (bits : BitVec 3) : Reg :=
  Reg.ofCode (BitVec.ofBool ext ++ bits)

/-- A ModRM byte: its register field (raw, and as a register) and its operand.
Modes other than a register and a base with a 32-bit displacement, the base being `rbp` or
with the prefix bit `r13`, are outside the model. -/
def takeModRM (p : Rex) : List Byte → Option (BitVec 3 × Reg × RM × List Byte)
  | [] => none
  | m :: rest =>
    let digit := m.extractLsb' 3 3
    let rm := m.extractLsb' 0 3
    let mode := m.extractLsb' 6 2
    if mode = 3 then some (digit, regOf p.r digit, .reg (regOf p.b rm), rest)
    else if mode = 2 ∧ rm = 5 ∧ p.b = false then
      (take32 rest).map fun d => (digit, regOf p.r digit, .mem d.1, d.2)
    else if mode = 2 ∧ rm = 5 then
      (take32 rest).map fun d => (digit, regOf p.r digit, .memR13 d.1, d.2)
    else none

/-- The condition of a four-bit code. -/
def condOf (c : BitVec 4) : Option Cond :=
  match c.toNat with
  | 0 => some .o | 1 => some .no | 2 => some .b | 3 => some .ae | 4 => some .e
  | 5 => some .ne | 6 => some .be | 7 => some .a | 8 => some .s | 9 => some .ns
  | 12 => some .l | 13 => some .ge | 14 => some .le | 15 => some .g
  | _ => none

/-- The arithmetic operation of a three-bit code; `adc` and `sbb` are outside the
model. -/
def aluOf (c : BitVec 3) : Option Alu :=
  match c.toNat with
  | 0 => some .add | 1 => some .or | 4 => some .and | 5 => some .sub | 6 => some .xor
  | 7 => some .cmp | _ => none

/-- The shift of a `D3` digit; rotates are outside the model. -/
def shiftOf (c : BitVec 3) : Option Shift :=
  match c.toNat with
  | 4 => some .shl | 5 => some .shr | 7 => some .sar | _ => none

/-- Two-byte opcodes, after the `0F` escape. -/
def decode0F (p : Rex) (op : Byte) (rest : List Byte) : Option (Instr × List Byte) := do
  let low := op.extractLsb' 0 4
  if op.extractLsb' 4 4 = 8 then
    let c ← condOf low
    let (rel, rest) ← take32 rest
    return (.jcc c rel, rest)
  else
    let (_, r, rm, rest) ← takeModRM p rest
    if op.extractLsb' 4 4 = 9 then
      -- Without a prefix the byte registers 4 to 7 are the high halves.
      match rm with
      | .reg q => if q ∈ [Reg.rax, .rcx, .rdx, .rbx] then
          return (.setcc (← condOf low) q, rest) else none
      | _ => none
    else if op = 0xAF then return (.imul p.width r rm, rest)
    else if p.w then none
    else if op = 0xB6 then return (.extend false 1 r rm, rest)
    else if op = 0xB7 then return (.extend false 2 r rm, rest)
    else if op = 0xBE then return (.extend true 1 r rm, rest)
    else if op = 0xBF then return (.extend true 2 r rm, rest)
    else none

/-- One-byte opcodes. -/
def decodeOp (p : Rex) (op : Byte) (rest : List Byte) : Option (Instr × List Byte) := do
  if op = 0x99 then return (.signSplit p.width, rest)
  else if op = 0xE9 then
    let (rel, rest) ← take32 rest
    return (.jmp rel, rest)
  else if op = 0x3D then
    let (imm, rest) ← take32 rest
    return (.aluImm p.width .cmp (.reg .rax) imm, rest)
  else if op = 0xB8 ∧ p.w = false ∧ p.b = false then
    let (imm, rest) ← take32 rest
    return (.movImm .w32 (.reg .rax) imm, rest)
  else
    let (digit, r, rm, rest) ← takeModRM p rest
    if op = 0x8B then return (.mov p.width r rm, rest)
    else if op = 0x89 then return (.movTo p.width rm r, rest)
    else if op = 0x63 then (if p.w then return (.movsxd r rm, rest) else none)
    else if op = 0x85 then return (.test p.width rm r, rest)
    else if op = 0xC7 then
      if digit = 0 then
        let (imm, rest) ← take32 rest
        return (.movImm p.width rm imm, rest)
      else none
    else if op = 0x81 then
      let alu ← aluOf digit
      let (imm, rest) ← take32 rest
      return (.aluImm p.width alu rm imm, rest)
    else if op = 0xF7 then
      if digit = 3 then return (.neg p.width rm, rest)
      else if digit = 7 then return (.idiv p.width rm, rest)
      else none
    else if op = 0xD3 then return (.shiftCl p.width (← shiftOf digit) rm, rest)
    else if op.extractLsb' 6 2 = 0 ∧ op.extractLsb' 0 3 = 3 then
      return (.alu p.width (← aluOf (op.extractLsb' 3 3)) r rm, rest)
    else if op.extractLsb' 6 2 = 0 ∧ op.extractLsb' 0 3 = 1 then
      return (.aluTo p.width (← aluOf (op.extractLsb' 3 3)) rm r, rest)
    else none

def decode (bytes : List Byte) : Option (Instr × List Byte) :=
  match takeRex bytes with
  | (p, 0x0F :: op :: rest) => decode0F p op rest
  | (p, op :: rest) => decodeOp p op rest
  | (_, []) => none

/-- Decode a whole block; each entry carries the instruction's length.  Every
instruction takes a byte, so the length of the text bounds the walk. -/
def decodeBlock : Nat → List Byte → Option (List (Instr × Nat))
  | _, [] => some []
  | 0, _ :: _ => none
  | fuel + 1, b :: bs => do
      let (i, rest) ← decode (b :: bs)
      let is ← decodeBlock fuel rest
      return ((i, (b :: bs).length - rest.length) :: is)

/-- A block as a sequence of encoded instructions: each piece decodes to its
instruction whatever bytes follow it. -/
inductive Decodes : List Byte → List (Instr × Nat) → Prop where
  | nil : Decodes [] []
  | cons {bs rest : List Byte} {i : Instr} {is : List (Instr × Nat)}
      (hne : bs ≠ []) (hdec : ∀ tail, decode (bs ++ tail) = some (i, tail))
      (hrest : Decodes rest is) : Decodes (bs ++ rest) ((i, bs.length) :: is)

variable {is : List (Instr × Nat)}

theorem Decodes.snoc {out : List Byte} {i : Instr} (h : Decodes out is) (hne : bs ≠ [])
    (hdec : ∀ tail, decode (bs ++ tail) = some (i, tail)) :
    Decodes (out ++ bs) (is ++ [(i, bs.length)]) := by
  induction h with
  | nil =>
    have hone := Decodes.cons hne hdec Decodes.nil
    simpa only [append_nil, nil_append] using hone
  | cons hne' hdec' _ ih =>
    rw [append_assoc, cons_append]
    exact Decodes.cons hne' hdec' ih

theorem Decodes.append {out : List Byte} {js : List (Instr × Nat)} (h : Decodes out is)
    (h' : Decodes bs js) : Decodes (out ++ bs) (is ++ js) := by
  induction h with
  | nil => exact h'
  | cons hne hdec _ ih =>
    rw [append_assoc, cons_append]
    exact Decodes.cons hne hdec ih

theorem Decodes.single {i : Instr} (hne : bs ≠ [])
    (hdec : ∀ tail, decode (bs ++ tail) = some (i, tail)) : Decodes bs [(i, bs.length)] := by
  have h := Decodes.cons hne hdec Decodes.nil
  rwa [append_nil] at h

theorem Decodes.decodeBlock_eq (h : Decodes bs is) :
    ∀ fuel, bs.length ≤ fuel → decodeBlock fuel bs = some is := by
  induction h with
  | nil =>
    intro fuel _
    cases fuel <;> rfl
  | @cons bs rest i is hne hdec _ ih =>
    intro fuel hfuel
    have hpos : 0 < bs.length := length_pos_iff.mpr hne
    rw [length_append] at hfuel
    obtain ⟨fuel, rfl⟩ : ∃ f, fuel = f + 1 := ⟨fuel - 1, by omega⟩
    obtain ⟨b, tl, hcons⟩ : ∃ b tl, bs ++ rest = b :: tl := by
      cases bs with
      | nil => exact absurd rfl hne
      | cons b tl => exact ⟨b, tl ++ rest, rfl⟩
    have hlen : (bs ++ rest).length - rest.length = bs.length := by
      rw [length_append]
      omega
    have hd := hdec rest
    rw [hcons] at hd hlen ⊢
    simp only [decodeBlock, hd, ih fuel (by omega), hlen, bind, Option.bind, pure]

/-! ## Execution -/

namespace State

def setReg (s : State) (r : Reg) (v : BitVec 64) : State :=
  { s with gpr := fun q => if q = r then v else s.gpr q }

/-- Register write of either width; a 32-bit write clears the upper half. -/
def setRegW (s : State) : (w : Width) → Reg → BitVec w.bits → State
  | .w32, r, v => s.setReg r (v.setWidth 64)
  | .w64, r, v => s.setReg r v

def getReg (s : State) (w : Width) (r : Reg) : BitVec w.bits := (s.gpr r).setWidth w.bits

/-- Address of `[rbp + disp]`. -/
def addr (s : State) (disp : BitVec 32) : Addr := s.gpr .rbp + disp.signExtend 64

/-- Address of `[r13 + disp]`. -/
def addrR13 (s : State) (disp : BitVec 32) : Addr := s.gpr .r13 + disp.signExtend 64

def load (s : State) : (w : Width) → RM → BitVec w.bits
  | w, .reg r => s.getReg w r
  | .w32, .mem d => read32 s.mem (s.addr d)
  | .w64, .mem d => read64 s.mem (s.addr d)
  | .w32, .memR13 d => read32 s.mem (s.addrR13 d)
  | .w64, .memR13 d => read64 s.mem (s.addrR13 d)

def store (s : State) : (w : Width) → RM → BitVec w.bits → State
  | w, .reg r, v => s.setRegW w r v
  | .w32, .mem d, v => { s with mem := write s.mem (s.addr d) 4 v }
  | .w64, .mem d, v => { s with mem := write s.mem (s.addr d) 8 v }
  | .w32, .memR13 d, v => { s with mem := write s.mem (s.addrR13 d) 4 v }
  | .w64, .memR13 d, v => { s with mem := write s.mem (s.addrR13 d) 8 v }

def setFlags (s : State) (f : Flags) : State := { s with flags := f }

variable (s : State)
include s

@[simp] theorem setReg_gpr (r q : Reg) (v : BitVec 64) :
    (s.setReg r v).gpr q = if q = r then v else s.gpr q := rfl

@[simp] theorem setReg_mem (r : Reg) (v : BitVec 64) : (s.setReg r v).mem = s.mem := rfl

@[simp] theorem setReg_flags (r : Reg) (v : BitVec 64) : (s.setReg r v).flags = s.flags := rfl

@[simp] theorem setFlags_gpr (f : Flags) : (s.setFlags f).gpr = s.gpr := rfl

@[simp] theorem setFlags_mem (f : Flags) : (s.setFlags f).mem = s.mem := rfl

@[simp] theorem setFlags_flags (f : Flags) : (s.setFlags f).flags = f := rfl

/-- A register reads back a write of the same width. -/
theorem getReg_setRegW_self (w : Width) (r : Reg) (v : BitVec w.bits) :
    (s.setRegW w r v).getReg w r = v := by
  cases w with
  | w32 =>
    simp only [setRegW, getReg, setReg_gpr, if_true]
    rw [BitVec.setWidth_setWidth_of_le _ (by decide)]
    exact BitVec.setWidth_eq v
  | w64 =>
    simp only [setRegW, getReg, setReg_gpr, if_true]
    exact BitVec.setWidth_eq v

theorem setRegW_gpr_ne (w : Width) {q r : Reg} (h : q ≠ r) (v : BitVec w.bits) :
    (s.setRegW w r v).gpr q = s.gpr q := by
  cases w <;> simp only [setRegW, setReg_gpr, h, if_false]

theorem getReg_setRegW_ne (w : Width) {q r : Reg} (h : q ≠ r)
    (v : BitVec w.bits) : (s.setRegW w r v).getReg w q = s.getReg w q := by
  simp only [getReg, s.setRegW_gpr_ne w h]

end State

def Cond.holds (f : Flags) : Cond → Bool
  | .o => f.of
  | .no => !f.of
  | .b => f.cf
  | .ae => !f.cf
  | .e => f.zf
  | .ne => !f.zf
  | .be => f.cf || f.zf
  | .a => !f.cf && !f.zf
  | .s => f.sf
  | .ns => !f.sf
  | .l => f.sf != f.of
  | .ge => f.sf == f.of
  | .le => f.zf || f.sf != f.of
  | .g => !f.zf && f.sf == f.of

/-- Result and flags of an arithmetic operation.  The result of `cmp` is the
difference, which the instruction does not store. -/
def Alu.eval {w : Nat} (op : Alu) (a b : BitVec w) : BitVec w × Flags :=
  let logic (v : BitVec w) : BitVec w × Flags := (v, ⟨false, v == 0, v.msb, false⟩)
  match op with
  | .add => (a + b, ⟨BitVec.uaddOverflow a b, a + b == 0, (a + b).msb, BitVec.saddOverflow a b⟩)
  | .sub | .cmp => (a - b, ⟨BitVec.ult a b, a - b == 0, (a - b).msb, BitVec.ssubOverflow a b⟩)
  | .and => logic (a &&& b)
  | .or => logic (a ||| b)
  | .xor => logic (a ^^^ b)

/-- Shift by a count already masked to the operand width. -/
def Shift.eval {w : Nat} (op : Shift) (a : BitVec w) (n : Nat) : BitVec w :=
  match op with
  | .shl => a <<< n
  | .shr => a >>> n
  | .sar => a.sshiftRight n

/-- Signed division of the double-width dividend `hi:lo`: quotient and remainder,
or `none` for the divide error (zero divisor, or a quotient that does not fit). -/
def idivQR {w : Nat} (hi lo b : BitVec w) : Option (BitVec w × BitVec w) :=
  let n := (hi ++ lo).toInt
  let q := n.tdiv b.toInt
  if b = 0 then none
  else if q < -2 ^ (w - 1) ∨ 2 ^ (w - 1) ≤ q then none
  else some (BitVec.ofInt w q, BitVec.ofInt w (n.tmod b.toInt))

inductive Effect where
  | next (s : State)
  | jump (rel : BitVec 32) (s : State)
  | fault

open State in
/-- Execute one instruction. -/
def exec (s : State) : Instr → Effect
  | .mov w d src => .next (s.setRegW w d (s.load w src))
  | .movTo w d src => .next (s.store w d (s.getReg w src))
  | .movImm w d imm => .next (s.store w d (imm.signExtend w.bits))
  | .movsxd d src => .next (s.setReg d ((s.load .w32 src).signExtend 64))
  | .alu w op d src =>
    let (v, f) := op.eval (s.getReg w d) (s.load w src)
    .next ((if op = .cmp then s else s.setRegW w d v).setFlags f)
  | .aluTo w op d src =>
    let (v, f) := op.eval (s.load w d) (s.getReg w src)
    .next ((if op = .cmp then s else s.store w d v).setFlags f)
  | .aluImm w op d imm =>
    let (v, f) := op.eval (s.load w d) (imm.signExtend w.bits)
    .next ((if op = .cmp then s else s.store w d v).setFlags f)
  | .test w a b => .next (s.setFlags (Alu.and.eval (s.load w a) (s.getReg w b)).2)
  | .imul w d src =>
    let a := s.getReg w d
    let b := s.load w src
    let ovf := BitVec.smulOverflow a b
    .next ((s.setRegW w d (a * b)).setFlags { s.flags with cf := ovf, of := ovf })
  | .neg w d =>
    let (v, f) := Alu.sub.eval 0 (s.load w d)
    .next ((s.store w d v).setFlags f)
  | .idiv w src =>
    match idivQR (s.getReg w .rdx) (s.getReg w .rax) (s.load w src) with
    | some (q, r) => .next ((s.setRegW w .rax q).setRegW w .rdx r)
    | none => .fault
  | .shiftCl w op d =>
    let n := ((s.gpr .rcx).toNat % 256) % w.bits
    let v := op.eval (s.load w d) n
    if n = 0 then .next (s.store w d v)
    else .next ((s.store w d v).setFlags { s.flags with zf := v == 0, sf := v.msb })
  | .signSplit w =>
    .next (s.setRegW w .rdx (if (s.getReg w .rax).msb then BitVec.allOnes w.bits else 0))
  | .setcc c d =>
    let v : BitVec 8 := if c.holds s.flags then 1 else 0
    .next (s.setReg d ((s.gpr d).extractLsb' 8 56 ++ v))
  | .extend signed bytes d src =>
    let v : BitVec 64 := match src with
      | .reg r => s.gpr r
      | .mem disp => (read16 s.mem (s.addr disp)).setWidth 64
      | .memR13 disp => (read16 s.mem (s.addrR13 disp)).setWidth 64
    let low := v.setWidth (8 * bytes)
    .next (s.setRegW .w32 d (if signed then low.signExtend 32 else low.setWidth 32))
  | .jcc c rel => if c.holds s.flags then .jump rel s else .next s
  | .jmp rel => .jump rel s

inductive Outcome where
  /-- Execution fell off the end of the block. -/
  | fall (s : State)
  /-- A jump was taken to the given code offset. -/
  | jump (target : BitVec 32) (s : State)
  /-- The processor raised the divide error. -/
  | fault

/-- Run decoded instructions; `pos` is the code offset of the first. -/
def runInstrs (pos : BitVec 32) (s : State) : List (Instr × Nat) → Outcome
  | [] => .fall s
  | (i, len) :: rest =>
    match exec s i with
    | .next s' => runInstrs (pos + BitVec.ofNat 32 len) s' rest
    | .jump rel s' => .jump (pos + BitVec.ofNat 32 len + rel) s'
    | .fault => .fault

/-- Run a block of bytes placed at code offset `pos`; `none` when the bytes do not
decode. -/
def runBlock (pos : BitVec 32) (bytes : List Byte) (s : State) : Option Outcome :=
  (decodeBlock bytes.length bytes).map (runInstrs pos s)

/-- Execution continues behind instructions that fall through. -/
theorem runInstrs_append (pos : BitVec 32) (s s' : State) (front back : List (Instr × Nat))
    (h : runInstrs pos s front = .fall s') :
    runInstrs pos s (front ++ back) =
      runInstrs (pos + BitVec.ofNat 32 (front.map Prod.snd).sum) s' back := by
  induction front generalizing pos s with
  | nil =>
    simp only [runInstrs, Outcome.fall.injEq] at h
    subst h
    simp
  | cons hd tl ih =>
    obtain ⟨i, len⟩ := hd
    simp only [runInstrs, cons_append] at h ⊢
    cases he : exec s i with
    | next s1 =>
      simp only [he] at h
      simp only [ih _ s1 h, map_cons, sum_cons, BitVec.ofNat_add, BitVec.add_assoc]
    | jump rel s1 | fault => simp only [he, reduceCtorEq] at h

/-! ## Straight-line code -/

/-- The bytes are a block that takes the machine from `s` to `s'` and falls off its end,
wherever it is placed. -/
def Falls (bytes : List Byte) (s s' : State) : Prop :=
  ∃ is, Decodes bytes is ∧ ∀ pos, runInstrs pos s is = .fall s'

namespace Falls

theorem nil (s : State) : Falls [] s s := ⟨[], .nil, fun _ => rfl⟩

variable {bs : List Byte}

theorem single {i : Instr} {s s' : State} (hne : bs ≠ [])
    (hdec : ∀ tail, decode (bs ++ tail) = some (i, tail)) (hexec : exec s i = .next s') :
    Falls bs s s' := by
  refine ⟨_, Decodes.single hne hdec, fun pos => ?_⟩
  simp only [runInstrs, hexec]

theorem append {cs : List Byte} {s t u : State} (h : Falls bs s t) (h' : Falls cs t u) :
    Falls (bs ++ cs) s u := by
  obtain ⟨is, hdec, hrun⟩ := h
  obtain ⟨js, hdec', hrun'⟩ := h'
  refine ⟨is ++ js, hdec.append hdec', fun pos => ?_⟩
  rw [runInstrs_append pos s t is js (hrun pos), hrun']

theorem runBlock_eq {s s' : State} (h : Falls bs s s') (pos : BitVec 32) :
    runBlock pos bs s = some (.fall s') := by
  obtain ⟨is, hdec, hrun⟩ := h
  rw [runBlock, hdec.decodeBlock_eq bs.length (Nat.le_refl _), Option.map_some, hrun]

end Falls

/-- A displacement below `2 ^ 31` extends to itself. -/
theorem signExtend_ofNat {k : Nat} (h : k < 2 ^ 31) :
    (BitVec.ofNat 32 k).signExtend 64 = BitVec.ofNat 64 k := by
  have hmsb : (BitVec.ofNat 32 k).msb = false := by
    rw [BitVec.msb_eq_false_iff_two_mul_lt, BitVec.toNat_ofNat]
    omega
  rw [BitVec.signExtend_eq_setWidth_of_msb_false hmsb]
  apply BitVec.eq_of_toNat_eq
  simp only [BitVec.toNat_setWidth, BitVec.toNat_ofNat]
  omega

/-- The double-width dividend that `cdq`/`cqo` prepares is the operand itself. -/
theorem toInt_signSplit (hw : 0 < w) (a : BitVec w) :
    ((if a.msb then BitVec.allOnes w else 0) ++ a).toInt = a.toInt := by
  have hne : (w == 0) = false := by
    simp only [beq_eq_false_iff_ne]
    omega
  rw [BitVec.toInt_append, hne, BitVec.toInt_eq_msb_cond a]
  cases hm : a.msb with
  | false => simp
  | true =>
    simp only [if_true, BitVec.toInt_allOnes, hw]
    push_cast
    ring_nf

/-- Division of a sign-extended operand faults exactly on a zero divisor and on
the one quotient that does not fit. -/
theorem idivQR_signSplit (hw : 0 < w) (a b : BitVec w) :
    idivQR (if a.msb then BitVec.allOnes w else 0) a b =
      if b = 0 ∨ (a = BitVec.intMin w ∧ b = -1) then none
      else some (BitVec.ofInt w (a.toInt.tdiv b.toInt), BitVec.ofInt w (a.toInt.tmod b.toInt)) := by
  unfold idivQR
  simp only [toInt_signSplit hw]
  by_cases hb : b = 0
  · simp only [hb, true_or, if_true]
  by_cases hmin : a = BitVec.intMin w ∧ b = -1
  · have hone : b.toInt = -1 := by
      have hall : b = BitVec.allOnes w := by rw [hmin.2]; exact BitVec.neg_one_eq_allOnes
      rw [hall, BitVec.toInt_allOnes, if_pos hw]
    have hover : (2 : Int) ^ (w - 1) ≤ a.toInt.tdiv b.toInt := by
      rw [hmin.1, BitVec.toInt_intMin_of_pos hw, hone, Int.tdiv_neg, Int.tdiv_one, Int.neg_neg]
    rw [if_neg hb, if_pos (Or.inr hover), if_pos (Or.inr hmin)]
  · have hfit : (a.sdiv b).toInt = a.toInt.tdiv b.toInt := by
      refine BitVec.toInt_sdiv_of_ne_or_ne a b ?_
      by_cases ha : a = BitVec.intMin w
      · exact Or.inr (fun h => hmin ⟨ha, h⟩)
      · exact Or.inl ha
    have hlo : -2 ^ (w - 1) ≤ a.toInt.tdiv b.toInt := by
      rw [← hfit]
      exact BitVec.le_toInt _
    have hhi : a.toInt.tdiv b.toInt < 2 ^ (w - 1) := by
      rw [← hfit]
      exact BitVec.toInt_lt
    rw [if_neg hb, if_neg (by omega), if_neg (by simp only [hb, hmin, or_self, not_false_iff])]

theorem exec_idiv_signSplit (s : State) (w : Width) {r : Reg} (hr : r ≠ .rdx)
    (a b : BitVec w.bits) (ha : s.getReg w .rax = a) (hb : s.getReg w r = b) :
    exec (s.setRegW w .rdx (if (s.getReg w .rax).msb then BitVec.allOnes w.bits else 0))
        (.idiv w (.reg r)) =
      if b = 0 ∨ (a = BitVec.intMin w.bits ∧ b = -1) then .fault
      else .next (((s.setRegW w .rdx (if (s.getReg w .rax).msb
        then BitVec.allOnes w.bits else 0)).setRegW w .rax
          (BitVec.ofInt w.bits (a.toInt.tdiv b.toInt))).setRegW w .rdx
          (BitVec.ofInt w.bits (a.toInt.tmod b.toInt))) := by
  have hw : 0 < w.bits := by cases w <;> decide
  have hload (t : State) : t.load w (.reg r) = t.getReg w r := by cases w <;> rfl
  simp only [exec, hload, State.getReg_setRegW_self, State.getReg_setRegW_ne _ _ hr,
    State.getReg_setRegW_ne _ _ (show Reg.rax ≠ .rdx by decide), ha, hb,
    idivQR_signSplit hw]
  by_cases hdiv : b = 0 ∨ (a = BitVec.intMin w.bits ∧ b = -1)
  · simp only [hdiv, if_true]
  · simp only [hdiv, if_false]

end B2Compiler.Lib.X86
