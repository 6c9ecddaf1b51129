import Mathlib.Algebra.Order.Ring.Nat
import B2Compiler.Rbc.Program

/-!
# The method builder

Lowering and tests put methods together through a builder: instructions are appended, constants
interned, labels bound, and `finish` resolves the labels and publishes the method.  Indices are
natural numbers until they are written into an instruction or a switch table.
-/

namespace B2Compiler.Rbc

def isSwitchOp (op : Op) : Bool := op == .tableswitch || op == .lookupswitch

/-- Full-value equality of constants, by the fields that count for the kind. -/
def sameConst (a b : Const) : Bool :=
  if a.kind ≠ b.kind then false
  else match a.kind with
    | .int32 => a.i32 == b.i32
    | .int64 => a.i64 == b.i64
    | .float => a.f32 == b.f32
    | .double => a.f64 == b.f64
    | .utf8 | .string | .klass | .methodType => a.str == b.str
    | .nameType | .methodHandle | .invokeDynamic => a.str == b.str && a.str2 == b.str2
    | .fieldRef | .methodRef | .interfaceMethodRef =>
      a.str == b.str && a.str2 == b.str2 && a.str3 == b.str3
    | .switchTable => a.ints == b.ints

/-- Does this call write its result register?  The descriptor of the callee says so, as far
as the pool shows it. -/
def callWritesResult (cp : List Const) (ins : Ins) : Bool :=
  match cp[ins.immIdx]? with
  | none => false
  | some c =>
    match c.kind with
    | .methodRef | .interfaceMethodRef => parseReturn c.str3 != .bottom
    | .invokeDynamic => parseReturn c.str2 != .bottom
    | _ => false

def regRangeError (reg : BitVec 16) (pc : Nat) (numRegs : BitVec 32) : String :=
  s!"register r{reg.toNat} out of range at pc {pc} (numRegs {numRegs.toNat})"

def slotRangeError (slot : BitVec 32) (pc : Nat) (numLocals : BitVec 32) : String :=
  s!"local slot {slot.toNat} out of range at pc {pc} (numLocals {numLocals.toNat})"

/-- Where a label is bound.  The source marks the first two with the two largest values of 32
bits, which no instruction index reaches. -/
inductive Bound where
  | unbound
  | doubleBound
  | at (index : Nat)
  deriving DecidableEq, Repr

/-- An instruction to be patched with the place of a label: its immediate, or a slot of its
switch table. -/
structure Patch where
  pc : Nat
  labelId : Nat
  slot : Option Nat
  deriving DecidableEq, Repr

/-- The builder; a label is its index in `boundAt`. -/
structure RbcBuilder where
  name : String
  descriptor : String
  flags : BitVec 16 := 0
  numRegs : BitVec 32 := 0
  numLocals : BitVec 32 := 0
  code : List Ins := []
  cp : List Const := []
  handlers : List ExceptionHandler := []
  boundAt : List Bound := []
  patches : List Patch := []
  pendingError : String := ""
  deriving DecidableEq, Repr

namespace RbcBuilder

variable (b : RbcBuilder)

def setRegs (n : BitVec 32) : RbcBuilder := { b with numRegs := n }

def setLocals (n : BitVec 32) : RbcBuilder := { b with numLocals := n }

/-- The register handed out is the old count. -/
def newReg : RbcBuilder := { b with numRegs := b.numRegs + 1 }

/-! ## Constants -/

/-- The first equal constant of the pool, or a new entry. -/
def internConst (c : Const) : RbcBuilder × Nat :=
  match b.cp.findIdx? (fun d => sameConst d c) with
  | some i => (b, i)
  | none => ({ b with cp := b.cp ++ [c] }, b.cp.length)

def constInt (v : BitVec 32) : RbcBuilder × Nat := b.internConst { kind := .int32, i32 := v }

def constLong (v : BitVec 64) : RbcBuilder × Nat := b.internConst { kind := .int64, i64 := v }

def constFloat (v : BitVec 32) : RbcBuilder × Nat := b.internConst { kind := .float, f32 := v }

def constDouble (v : BitVec 64) : RbcBuilder × Nat := b.internConst { kind := .double, f64 := v }

def constString (v : String) : RbcBuilder × Nat := b.internConst { kind := .string, str := v }

def constClass (internalName : String) : RbcBuilder × Nat :=
  b.internConst { kind := .klass, str := internalName }

def constFieldRef (cls name descriptor : String) : RbcBuilder × Nat :=
  b.internConst { kind := .fieldRef, str := cls, str2 := name, str3 := descriptor }

def constMethodRef (cls name descriptor : String) : RbcBuilder × Nat :=
  b.internConst { kind := .methodRef, str := cls, str2 := name, str3 := descriptor }

/-- A table as a pool entry. -/
def tableConst (ints : List (BitVec 32)) : Const := { kind := .switchTable, ints := ints }

def constSwitch (payload : List (BitVec 32)) : RbcBuilder × Nat :=
  b.internConst (tableConst payload)

/-! ## Emission -/

/-- Appends the instruction; its index is the old length of the code. -/
def rawEmit (i : Ins) : RbcBuilder := { b with code := b.code ++ [i] }

def emit (op : Op) : RbcBuilder := b.rawEmit ⟨op, 0, 0, 0, 0⟩

def emitReg (op : Op) (a : BitVec 16) : RbcBuilder := b.rawEmit ⟨op, 0, a, 0, 0⟩

def emitRegImm (op : Op) (dst : BitVec 16) (imm : BitVec 32) : RbcBuilder :=
  b.rawEmit ⟨op, dst, 0, 0, imm⟩

def emitRegCp (op : Op) (dst : BitVec 16) (cpIdx : BitVec 32) : RbcBuilder :=
  b.rawEmit ⟨op, dst, 0, 0, cpIdx⟩

def emitRegSlot (op : Op) (dst : BitVec 16) (slot : BitVec 32) : RbcBuilder :=
  b.rawEmit ⟨op, dst, 0, 0, slot⟩

def emitSlotReg (op : Op) (a : BitVec 16) (slot : BitVec 32) : RbcBuilder :=
  b.rawEmit ⟨op, 0, a, 0, slot⟩

def emitRegReg (op : Op) (dst a : BitVec 16) : RbcBuilder := b.rawEmit ⟨op, dst, a, 0, 0⟩

def emitRegRegReg (op : Op) (dst a r : BitVec 16) : RbcBuilder := b.rawEmit ⟨op, dst, a, r, 0⟩

def emitRegRegImm (op : Op) (dst a : BitVec 16) (imm : BitVec 32) : RbcBuilder :=
  b.rawEmit ⟨op, dst, a, 0, imm⟩

def emitRegRegCp (op : Op) (dst a : BitVec 16) (cpIdx : BitVec 32) : RbcBuilder :=
  b.rawEmit ⟨op, dst, a, 0, cpIdx⟩

def emitRegRegRegCp (op : Op) (dst a r : BitVec 16) (cpIdx : BitVec 32) : RbcBuilder :=
  b.rawEmit ⟨op, dst, a, r, cpIdx⟩

def emitCall (op : Op) (dst argBase argCount : BitVec 16) (cpIdx : BitVec 32) : RbcBuilder :=
  b.rawEmit ⟨op, dst, argBase, argCount, cpIdx⟩

def emitGuard (op : Op) (a : BitVec 16) (deoptId : BitVec 32) : RbcBuilder :=
  b.rawEmit ⟨op, 0, a, 0, deoptId⟩

def emitTrap (deoptId : BitVec 32) : RbcBuilder := b.rawEmit ⟨.deoptTrap, 0, 0, 0, deoptId⟩

/-! ## Branches and switches -/

/-- An instruction whose immediate is patched with the places of the labels, one after the
other. -/
def emitPatched (i : Ins) (labels : List Nat) : RbcBuilder :=
  { b.rawEmit i with
    patches := b.patches ++ labels.map fun l => ⟨b.code.length, l, none⟩ }

def emitBranch (op : Op) (target : Nat) : RbcBuilder := b.emitPatched ⟨op, 0, 0, 0, 0⟩ [target]

def emitRegBranch (op : Op) (a : BitVec 16) (target : Nat) : RbcBuilder :=
  b.emitPatched ⟨op, 0, a, 0, 0⟩ [target]

def emitRegRegBranch (op : Op) (a r : BitVec 16) (target : Nat) : RbcBuilder :=
  b.emitPatched ⟨op, 0, a, r, 0⟩ [target]

/-- The cases of a switch, by ascending match.  The order of equal matches is left open by the
source; with one of them the builder never finishes. -/
def switchPairs (payload : List (BitVec 32)) (targets : List Nat) : List (BitVec 32 × Nat) :=
  (payload.zip targets).mergeSort fun x y => decide (x.1.toInt ≤ y.1.toInt)

def firstDuplicate : List (BitVec 32 × Nat) → Option (BitVec 32)
  | x :: y :: rest => if y.1 = x.1 then some y.1 else firstDuplicate (y :: rest)
  | _ => none

/-- The matches fill the range from the first to the last. -/
def contiguous (pairs : List (BitVec 32 × Nat)) : Bool :=
  match pairs.head?, pairs.getLast? with
  | some first, some last => last.1.toInt - first.1.toInt + 1 == pairs.length
  | _, _ => false

def switchTable (op : Op) (pc : Nat) (keys targets : List (BitVec 32)) : List (BitVec 32) :=
  let default := BitVec.ofNat 32 (pc + 1)
  if op = .tableswitch then
    match keys.head?, keys.getLast? with
    | some low, some high => low :: high :: default :: targets
    | _, _ => [0, -1, default]
  else
    BitVec.ofNat 32 keys.length :: default :: (keys.zip targets).flatMap fun p => [p.1, p.2]

/-- The place of the target of the case `i` in the table. -/
def targetSlot (op : Op) (i : Nat) : Nat := if op = .tableswitch then 3 + i else 3 + 2 * i

/-- A misuse is noted unless there is one already. -/
def noteError (old : String) : Option String → String
  | none => old
  | some message => if old = "" then message else old

def sizeError (pc : Nat) (payload : List (BitVec 32)) (targets : List Nat) : Option String :=
  if payload.length ≠ targets.length then
    some s!"switch at pc {pc} has {payload.length} matches for {targets.length} targets"
  else none

def duplicateError (pc : Nat) (pairs : List (BitVec 32 × Nat)) : Option String :=
  (firstDuplicate pairs).map fun m => s!"switch at pc {pc} has duplicate match {m.toInt}"

def tableError (op : Op) (pc : Nat) (pairs : List (BitVec 32 × Nat)) : Option String :=
  if op ≠ .tableswitch then none
  else if pairs.isEmpty then some s!"tableswitch at pc {pc} requires at least one match"
  else if !contiguous pairs then
    some (s!"tableswitch at pc {pc} matches must be contiguous ascending " ++
      "(use lookupswitch for sparse matches)")
  else none

/-- A switch gets a table of its own, with zeros for the targets; they are patched in
`finish`.  Another opcode is a misuse and becomes a branch. -/
def emitSwitch (op : Op) (a : BitVec 16) (payload : List (BitVec 32)) (targets : List Nat) :
    RbcBuilder :=
  if !isSwitchOp op then b.emitPatched ⟨op, 0, a, 0, 0⟩ targets
  else
    let pc := b.code.length
    let pairs := switchPairs payload targets
    -- a wrong number of targets replaces what was noted before
    let error₁ := (sizeError pc payload targets).getD b.pendingError
    let error₂ := noteError error₁ (duplicateError pc pairs)
    { b with
      code := b.code ++ [⟨op, 0, a, 0, BitVec.ofNat 32 b.cp.length⟩]
      cp := b.cp ++ [tableConst (switchTable op pc (pairs.map (·.1)) (pairs.map fun _ => 0))]
      patches := b.patches ++ pairs.zipIdx.map fun p => ⟨pc, p.1.2, some (targetSlot op p.2)⟩
      pendingError := noteError error₂ (tableError op pc pairs) }

/-- The label handed out is the old number of labels. -/
def newLabel : RbcBuilder := { b with boundAt := b.boundAt ++ [.unbound] }

/-- Binds the label at the next instruction; a second time spoils it. -/
def bind (l : Nat) : RbcBuilder :=
  match b.boundAt[l]? with
  | none => b
  | some .unbound => { b with boundAt := b.boundAt.set l (.at b.code.length) }
  | some _ => { b with boundAt := b.boundAt.set l .doubleBound }

def addHandler (start stop handler : BitVec 32) (catchTypeCp : BitVec 32) : RbcBuilder :=
  { b with handlers := b.handlers ++
      [⟨start.toNat, stop.toNat, handler.toNat, catchTypeCp.toInt⟩] }

def handlerLabel : RbcBuilder := b.newLabel

/-! ## Finishing -/

def setImm (pc : Nat) (imm : BitVec 32) : RbcBuilder :=
  { b with code := b.code.modify pc fun i => { i with imm := imm } }

/-- Writes a target into a slot of a table of the pool. -/
def setSlot (k slot : Nat) (target : BitVec 32) : RbcBuilder :=
  { b with cp := b.cp.modify k fun c => { c with ints := c.ints.set slot target } }

/-- The entry of the pool is a switch table. -/
def isTable (k : Nat) : Bool := (b.cp[k]?.map fun c => c.kind == .switchTable).getD false

def noTableError (pc : Nat) : String := s!"switch at pc {pc} does not reference a switch table"

/-- The target is known: it goes into the immediate or into the table. -/
def writeTarget (p : Patch) (target : Nat) : Except String RbcBuilder :=
  match p.slot, b.code[p.pc]? with
  | none, _ => .ok (b.setImm p.pc (BitVec.ofNat 32 target))
  | some _, none => .ok b
  | some slot, some ins =>
    if isSwitchOp ins.op then
      if !b.isTable ins.immIdx then .error (noTableError p.pc)
      else if ((b.cp[ins.immIdx]?.map fun c => c.ints).getD []).length ≤ slot then
        .error s!"internal error: switch patch slot out of range at pc {p.pc}"
      else .ok (b.setSlot ins.immIdx slot (BitVec.ofNat 32 target))
    else .ok (b.setImm p.pc (BitVec.ofNat 32 target))

def applyPatch (p : Patch) : Except String RbcBuilder :=
  if b.code.length ≤ p.pc then
    .error s!"internal error: patch references instruction {p.pc}"
  else match b.boundAt[p.labelId]? with
    | none | some .unbound => .error s!"label L{p.labelId} is not bound"
    | some .doubleBound => .error s!"label L{p.labelId} is already bound"
    | some (.at target) =>
      if b.code.length ≤ target then .error "branch target out of range"
      else b.writeTarget p target

/-- Applies the patches in order; what was patched before an error stays patched. -/
def resolvePatches (b : RbcBuilder) : List Patch → RbcBuilder × Option String
  | [] => (b, none)
  | p :: ps =>
    match b.applyPatch p with
    | .error e => (b, some e)
    | .ok b' => resolvePatches b' ps

/-- The canonical shape of a table. -/
def shapeError (op : Op) (pc : Nat) (ints : List (BitVec 32)) : Option String :=
  let size : Int := ints.length
  if op = .tableswitch then
    let low := ((ints[0]?).map BitVec.toInt).getD 0
    let high := ((ints[1]?).map BitVec.toInt).getD (-1)
    if size < 3 ∨ 3 + (high - low) + 1 ≠ size then
      some s!"switch at pc {pc} has a malformed tableswitch payload"
    else none
  else
    let n := ((ints[0]?).map BitVec.toInt).getD (-1)
    if size < 2 ∨ 2 + 2 * n ≠ size ∨ n < 0 then
      some s!"switch at pc {pc} has a malformed lookupswitch payload"
    else none

def switchError (pc : Nat) (ins : Ins) : Option String :=
  if !isSwitchOp ins.op then none
  else if b.code.length ≤ pc + 1 then
    some (s!"switch at pc {pc} must not be the last instruction (default target is " ++ "pc+1)")
  else match b.cp[ins.immIdx]? with
    | none => some (noTableError pc)
    | some c => if c.kind ≠ .switchTable then some (noTableError pc) else shapeError ins.op pc c.ints

/-- The register operands of a signature, in the order they are checked. -/
def regOperands (ins : Ins) : Sig → List (BitVec 16)
  | .none | .branch | .trap | .call | .callQuick => []
  | .reg | .regBranch | .regCpBranch | .guard | .guardCp | .slotReg => [ins.a]
  | .regImm | .regCp | .regSlot => [ins.dst]
  | .regRegBranch => [ins.a, ins.b]
  | .regReg | .regRegImm | .regRegCp => [ins.dst, ins.a]
  | .regRegReg | .regRegRegCp => [ins.dst, ins.a, ins.b]

def regsError (pc : Nat) (regs : List (BitVec 16)) : Option String :=
  (regs.find? fun r => decide (b.numRegs.toNat ≤ r.toNat)).map fun r =>
    regRangeError r pc b.numRegs

/-- The registers `a` to `a + b - 1` of an instruction with a count. -/
def spanError (what : String) (pc : Nat) (ins : Ins) : Option String :=
  if 0 < ins.bReg ∧ b.numRegs.toNat < ins.aReg + ins.bReg then
    some (s!"{what} registers out of range at pc {pc} (r{ins.aReg} + {ins.bReg} > numRegs " ++
      s!"{b.numRegs.toNat})")
  else none

def operandError (pc : Nat) (ins : Ins) : Option String :=
  let sig := (info ins.op).sig
  if sig = .call ∨ sig = .callQuick then
    (b.regsError pc (if callWritesResult b.cp ins then [ins.dst] else [])).or
      (b.spanError "call argument" pc ins)
  else if ins.op = .multianewarray then
    (b.regsError pc [ins.dst, ins.a]).or (b.spanError "multianewarray dimension" pc ins)
  else if ins.op = .putfield ∨ ins.op = .putfieldQuick then b.regsError pc [ins.a, ins.b]
  else
    (b.regsError pc (regOperands ins sig)).or
      (if (sig = .regSlot ∨ sig = .slotReg) ∧ b.numLocals ≤ ins.imm then
        some (slotRangeError ins.imm pc b.numLocals)
      else none)

def handlerError (h : ExceptionHandler) : Option String :=
  if h.stop ≤ h.start ∨ b.code.length < h.stop then
    some (s!"exception handler range out of code (start {h.start}, end {h.stop}, code size " ++
      s!"{b.code.length})")
  else if b.code.length ≤ h.handler then
    some (s!"exception handler entry out of range (handler {h.handler}, code size " ++
      s!"{b.code.length})")
  else if 0 ≤ h.catchType ∧
      ¬((b.cp[h.catchType.toNat]?.map fun c => c.kind == .klass).getD false) then
    some s!"exception handler catch type c{h.catchType} is not a Class constant"
  else none

/-- What the checks behind the patches find first. -/
def publishError : Option String :=
  (b.code.zipIdx.findSome? fun i => b.switchError i.2 i.1).or <| (if 65536 < b.numRegs.toNat then
        some s!"too many registers ({b.numRegs.toNat}, max 65536)"
      else none).or <|
      (b.code.zipIdx.findSome? fun i => b.operandError i.2 i.1).or <|
        b.handlers.findSome? b.handlerError

/-- The method as it is published. -/
def method : Method where
  name := b.name
  descriptor := b.descriptor
  flags := b.flags
  numRegs := b.numRegs.toNat
  numLocals := b.numLocals.toNat
  code := b.code
  cp := b.cp
  handlers := b.handlers

structure FinishResult where
  ok : Bool := false
  error : String := ""
  deriving DecidableEq, Repr

def finish (out : Method) : RbcBuilder × FinishResult × Method :=
  if b.pendingError ≠ "" then (b, ⟨false, b.pendingError⟩, out)
  else match b.boundAt.findIdx? (fun at_ => at_ == .doubleBound) with
    | some i => (b, ⟨false, s!"label L{i} is already bound"⟩, out)
    | none =>
      match b.resolvePatches b.patches with
      | (b', some e) => (b', ⟨false, e⟩, out)
      | (b', none) =>
        match b'.publishError with
        | some e => (b', ⟨false, e⟩, out)
        | none => (b', ⟨true, ""⟩, b'.method)

end RbcBuilder

end B2Compiler.Rbc
