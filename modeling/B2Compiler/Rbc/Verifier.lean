import B2Compiler.Rbc.Program
import B2Compiler.Lib.Worklist

/-!
# The RBC verifier

The structural pass, the abstract interpretation over basic blocks and the
protected-range check that every method passes before any tier runs it.  The
verifier never fails: it returns a list of diagnostics, capped at a hundred, and
a method is accepted when the list is empty.

Two liberties of presentation.  A basic block is named by its first instruction
instead of by its position among the leaders, and the transfer of an instruction
(`stepIns`) is separated from the diagnostics it emits (`checkIns`), which the
source computes in one function with a switch.
-/

namespace B2Compiler.Rbc

open Lib List

/-! ## Diagnostics -/

/-- A diagnostic and the instruction it is about. -/
structure VerifyDiag where
  pc : Nat
  message : String
  deriving DecidableEq, Repr

/-- Diagnostic cap. -/
def kMaxDiags : Nat := 100

/-- Largest register or local file. -/
def kMaxU16 : Nat := 65535

/-- Elementary operations before the analysis gives up. -/
def kOpBudget : Nat := 2 ^ 30

/-- Total flow-state slots the analysis may hold. -/
def kMaxStateSlots : Nat := 2 ^ 28

/-- Protected-range change points the analysis may record. -/
def kMaxBreakpoints : Nat := 2 ^ 23

/-- Append a diagnostic unless the cap is reached. -/
def addDiag (ds : List VerifyDiag) (d : VerifyDiag) : List VerifyDiag :=
  if ds.length ≥ kMaxDiags then ds else ds ++ [d]

def addDiags (ds : List VerifyDiag) (new : List VerifyDiag) : List VerifyDiag :=
  new.foldl addDiag ds

/-! ## Descriptor scanning -/

/-- A class name up to its `;`, which must not be empty. -/
def scanName (s : List Char) : Option (RType × List Char) :=
  match s with
  | ';' :: _ => none
  | _ =>
    match s.dropWhile (· != ';') with
    | _ :: rest => some (.ref, rest)
    | [] => none

/-- One field type at the start of the text and the text behind it. -/
def scanField (s : List Char) : Option (RType × List Char) :=
  match s with
  | 'I' :: rest | 'Z' :: rest | 'B' :: rest | 'C' :: rest | 'S' :: rest => some (.int, rest)
  | 'J' :: rest => some (.long, rest)
  | 'F' :: rest => some (.float, rest)
  | 'D' :: rest => some (.double, rest)
  | 'L' :: rest => scanName rest
  | '[' :: rest =>
    match rest.dropWhile (· == '[') with
    | 'L' :: name => scanName name
    | 'I' :: r | 'J' :: r | 'F' :: r | 'D' :: r | 'Z' :: r | 'B' :: r | 'C' :: r | 'S' :: r =>
      some (.ref, r)
    | _ => none
  | _ => none

structure RetScan where
  isVoid : Bool
  type : RType
  deriving DecidableEq, Repr

/-- The parameter types of a descriptor behind its `(`, and the text behind the
`)`.  Every type consumes a character, so the text's length bounds the loop. -/
def scanParams : Nat → List Char → Option (List RType × List Char)
  | _, [] => none
  | _, ')' :: rest => some ([], rest)
  | 0, _ :: _ => none
  | fuel + 1, c :: cs => do
      let (t, rest) ← scanField (c :: cs)
      let (ts, rest') ← scanParams fuel rest
      return (t :: ts, rest')

/-- The text behind the parameter list of a whole method descriptor, and the
parameter types. -/
def scanParamTypes (d : String) : Option (List RType × List Char) :=
  match d.toList with
  | '(' :: rest => scanParams rest.length rest
  | _ => none

/-- A whole method descriptor: void, a type, or malformed. -/
def scanMethodDesc (d : String) : Option RetScan :=
  match scanParamTypes d with
  | none => none
  | some (_, ['V']) => some ⟨true, .bottom⟩
  | some (_, ret) =>
    match scanField ret with
    | some (t, []) => some ⟨false, t⟩
    | _ => none

def retName (rs : RetScan) : String :=
  if rs.isVoid then "void" else rs.type.typeName

/-! ## Operand layout -/

/-- Which operand fields of an instruction are registers. -/
structure RegUse where
  dst : Bool
  a : Bool
  b : Bool
  deriving DecidableEq, Repr

def regUse : Sig → RegUse
  | .none | .branch | .trap => ⟨false, false, false⟩
  | .reg | .slotReg | .regBranch | .regCpBranch | .guard => ⟨false, true, false⟩
  | .regImm | .regCp | .regSlot => ⟨true, false, false⟩
  | .regReg | .regRegImm | .regRegCp => ⟨true, true, false⟩
  | .regRegReg | .regRegRegCp => ⟨true, true, true⟩
  | .regRegBranch => ⟨false, true, true⟩
  -- `b` is an argument count for calls and a deopt id for class guards
  | .call | .callQuick => ⟨true, true, false⟩
  | .guardCp => ⟨false, true, false⟩

def sigUsesCpIndex (s : Sig) : Bool :=
  s = .regCp || s = .regRegCp || s = .regRegRegCp || s = .call || s = .regCpBranch

def isBranchSig (s : Sig) : Bool :=
  s = .branch || s = .regBranch || s = .regRegBranch

def isReturnOp : Op → Bool
  | .returnVoid | .ireturn | .lreturn | .freturn | .dreturn | .areturn => true
  | _ => false

/-- Opcodes that may continue at the next instruction. -/
def canFallThrough : Op → Bool
  | .goto | .tableswitch | .lookupswitch | .athrow | .deoptTrap => false
  | .returnVoid | .ireturn | .lreturn | .freturn | .dreturn | .areturn => false
  | _ => true

/-- Is the kind of a pool entry one the opcode can use? -/
def cpKindOk (op : Op) (k : ConstKind) : Bool :=
  match op with
  | .lconst => k = .int64
  | .dconst => k = .double
  | .ldc => k = .string || k = .klass || k = .methodType || k = .methodHandle
  | .new | .anewArray | .checkcast | .instanceof | .multianewarray => k = .klass
  | .getfield | .putfield | .getstatic | .putstatic => k = .fieldRef
  | .invokevirtual | .invokespecial => k = .methodRef
  | .invokeinterface | .invokestatic => k = .methodRef || k = .interfaceMethodRef
  | .invokedynamic => k = .invokeDynamic
  | .tableswitch | .lookupswitch => k = .switchTable
  | .guardClass => k = .klass
  | _ => true

def expectedCpName : Op → String
  | .lconst => "long"
  | .dconst => "double"
  | .ldc => "string, class, methodtype or methodhandle"
  | .new | .anewArray | .checkcast | .instanceof | .multianewarray | .guardClass => "class"
  | .getfield | .putfield | .getstatic | .putstatic => "field"
  | .invokevirtual | .invokespecial => "method"
  | .invokeinterface | .invokestatic => "method or interface method"
  | .invokedynamic => "invoke dynamic"
  | .tableswitch | .lookupswitch => "switch table"
  | _ => "any"

/-! ## Switch payloads -/

/-- Complaints about the shape of a payload; none when it can be walked. -/
def switchShape (op : Op) (v : List (BitVec 32)) : List String :=
  let size := toString v.length
  if op = .tableswitch then
    if v.length < 3 then ["malformed tableswitch payload (size " ++ size ++ ")"]
    else
      let low := (v.getD 0 0).toInt
      let high := (v.getD 1 0).toInt
      (if low > high then
        ["tableswitch low " ++ toString low ++ " exceeds high " ++ toString high] else []) ++
      (if 3 + (high - low) + 1 ≠ v.length then
        ["malformed tableswitch payload (size " ++ size ++ ")"] else [])
  else if v.length < 2 then ["malformed lookupswitch payload (size " ++ size ++ ")"]
  else
    let cnt := (v.getD 0 0).toInt
    if cnt < 0 ∨ 2 + 2 * cnt ≠ v.length then
      ["malformed lookupswitch payload (size " ++ size ++ ")"] else []

/-- The target words of a payload in the order they are validated: the default
first for a table, last for a lookup. -/
def switchWords (op : Op) (v : List (BitVec 32)) : List (BitVec 32) :=
  if op = .tableswitch then v.drop 2
  else (range (v.getD 0 0).toNat).map (fun i => v.getD (3 + 2 * i) 0) ++ [v.getD 1 0]

/-- A target word as an instruction index, when it is one. -/
def targetPc (n : Nat) (t : BitVec 32) : Option Nat :=
  if t.toInt < 0 ∨ t.toInt.toNat ≥ n then none else some t.toInt.toNat

def targetMsg (n : Nat) (t : BitVec 32) : List String :=
  match targetPc n t with
  | some _ => []
  | none =>
    ["switch target " ++ toString t.toInt ++ " out of range (code size " ++ toString n ++ ")"]

/-- Complaints about the entries of a payload whose shape is canonical. -/
def switchEntryMsgs (n : Nat) (op : Op) (v : List (BitVec 32)) : List String :=
  if op = .tableswitch then (v.drop 2).flatMap (targetMsg n)
  else
    (range (v.getD 0 0).toNat).flatMap (fun i =>
      (if i > 0 ∧ (v.getD (2 + 2 * i) 0).toInt ≤ (v.getD (2 + 2 * (i - 1)) 0).toInt then
        ["lookupswitch matches not strictly increasing at entry " ++ toString i] else []) ++
      targetMsg n (v.getD (3 + 2 * i) 0)) ++
    targetMsg n (v.getD 1 0)

def switchPayload (m : Method) (ins : Ins) : Option (List (BitVec 32)) :=
  match m.cp[ins.immIdx]? with
  | some c => if c.kind = .switchTable then some c.ints else none
  | none => none

/-- Diagnostics of a switch instruction. -/
def switchMsgs (m : Method) (ins : Ins) : List String :=
  match switchPayload m ins with
  | none => []
  | some v =>
    if switchShape ins.op v = [] then switchEntryMsgs m.code.length ins.op v
    else switchShape ins.op v

/-- The valid targets of a switch instruction. -/
def switchTargets (m : Method) (ins : Ins) : List Nat :=
  match switchPayload m ins with
  | none => []
  | some v =>
    if switchShape ins.op v = [] then
      (switchWords ins.op v).filterMap (targetPc m.code.length)
    else []

/-! ## Structural pass -/

def registerMsg (r numRegs : Nat) : String :=
  "register r" ++ toString r ++ " out of range (numRegs=" ++ toString numRegs ++ ")"

/-- The structural complaints about one instruction, in the order they are made. -/
def structureMsgs (m : Method) (pc : Nat) (ins : Ins) : List String :=
  let oi := info ins.op
  let ru := regUse oi.sig
  let n := m.code.length
  (if ru.dst ∧ ins.dstReg ≥ m.numRegs then [registerMsg ins.dstReg m.numRegs] else []) ++
  (if ru.a ∧ ins.aReg ≥ m.numRegs then [registerMsg ins.aReg m.numRegs] else []) ++
  (if ru.b ∧ ins.bReg ≥ m.numRegs then [registerMsg ins.bReg m.numRegs] else []) ++
  (if (oi.sig = .call ∨ oi.sig = .callQuick) ∧ ins.bReg ≠ 0 ∧ ins.aReg < m.numRegs ∧
      ins.aReg + ins.bReg > m.numRegs then [registerMsg m.numRegs m.numRegs] else []) ++
  (if (oi.sig = .regSlot ∨ oi.sig = .slotReg) ∧ ins.immIdx ≥ m.numLocals then
    ["local slot l" ++ toString ins.immIdx ++ " out of range (numLocals=" ++
      toString m.numLocals ++ ")"] else []) ++
  (if ins.op = .newArray ∧ (ins.immIdx < 4 ∨ ins.immIdx > 11) then
    ["invalid array type code " ++ toString ins.immIdx ++ " at pc " ++ toString pc] else []) ++
  (if sigUsesCpIndex oi.sig ∨ ins.op = .guardClass then
    match m.cp[ins.immIdx]? with
    | none =>
      ["constant pool index " ++ toString ins.immIdx ++ " out of range (size " ++
        toString m.cp.length ++ ")"]
    | some c =>
      if cpKindOk ins.op c.kind then []
      else ["constant pool entry " ++ toString ins.immIdx ++ " is " ++ c.kind.kindName ++
        ", but " ++ oi.name ++ " requires " ++ expectedCpName ins.op]
  else []) ++
  (if isBranchSig oi.sig ∧ ins.immIdx ≥ n then
    ["branch target " ++ toString ins.immIdx ++ " out of range (code size " ++
      toString n ++ ")"] else []) ++
  (if oi.sig = .regCpBranch then switchMsgs m ins else [])

def rangeMsg (h : ExceptionHandler) : String :=
  "exception handler range [" ++ toString h.start ++ "," ++ toString h.stop ++ ")"

/-- The complaints about one exception-table entry. -/
def handlerMsgs (m : Method) (h : ExceptionHandler) : List String :=
  let n := m.code.length
  (if h.start > h.stop ∨ h.stop > n then [rangeMsg h ++ " invalid"]
    else if h.start = h.stop then [rangeMsg h ++ " is empty"] else []) ++
  (if h.handler ≥ n then
    ["exception handler target " ++ toString h.handler ++ " out of range"] else []) ++
  (if h.catchType < -1 ∨ (h.catchType ≥ 0 ∧
      (m.cp[h.catchType.toNat]?).map Const.kind ≠ some .klass) then
    ["exception handler catch type " ++ toString h.catchType ++ " is not a Class constant"] else [])

def guardMsgs (m : Method) : List String :=
  (if m.code = [] ∧ m.isAbstract = false then ["empty method body"] else []) ++
  (if m.code ≠ [] ∧ m.isAbstract = true then ["abstract method must have empty code"] else []) ++
  (if m.numRegs > kMaxU16 then
    ["numRegs " ++ toString m.numRegs ++ " exceeds 65535"] else []) ++
  (if m.numLocals > kMaxU16 then
    ["numLocals " ++ toString m.numLocals ++ " exceeds 65535"] else [])

/-- Everything reported before the type check: guards, instructions in order,
the exception table, and control falling off the end. -/
def structuralDiags (m : Method) : List VerifyDiag :=
  (guardMsgs m).map (VerifyDiag.mk 0) ++
  m.code.zipIdx.flatMap (fun p => (structureMsgs m p.2 p.1).map (VerifyDiag.mk p.2)) ++
  m.handlers.flatMap (fun h => (handlerMsgs m h).map (VerifyDiag.mk 0)) ++
  (match m.code.getLast? with
    | some ins =>
      if canFallThrough ins.op then
        [⟨m.code.length - 1, "control falls off the end of the method"⟩] else []
    | none => [])

/-! ## Flow states -/

namespace RType

/-- The merge orders the types with `bottom` least and `ref` below `null`. -/
instance : Min RType := ⟨join⟩

instance : SemilatticeInf RType :=
  SemilatticeInf.mk' (fun a b => by cases a <;> cases b <;> rfl)
    (fun a b c => by cases a <;> cases b <;> cases c <;> rfl)
    (fun a => by cases a <;> rfl)

end RType

/-- Abstract state in front of an instruction: a type per register and local. -/
@[ext]
structure FlowState (m : Method) where
  regs : List RType
  locals : List RType
  regs_size : regs.length = m.numRegs
  locals_size : locals.length = m.numLocals
  deriving DecidableEq

namespace FlowState

variable {m : Method}

/-- Type of a register. -/
def reg (S : FlowState m) (r : Nat) : RType := S.regs.getD r .bottom

def loc (S : FlowState m) (i : Nat) : RType := S.locals.getD i .bottom

def setReg (S : FlowState m) (r : Nat) (t : RType) : FlowState m :=
  ⟨S.regs.set r t, S.locals, by rw [length_set]; exact S.regs_size, S.locals_size⟩

def setLoc (S : FlowState m) (i : Nat) (t : RType) : FlowState m :=
  ⟨S.regs, S.locals.set i t, S.regs_size, by rw [length_set]; exact S.locals_size⟩

/-- The state at a handler entry: the exception in `r0`, no other register, and
the locals of the edge. -/
def handlerEntry (S : FlowState m) : FlowState m :=
  ⟨(replicate m.numRegs RType.bottom).set 0 .ref, S.locals, by simp, S.locals_size⟩

/-- Slot-wise merge. -/
def joinWith (S T : FlowState m) : FlowState m :=
  ⟨zipWith RType.join S.regs T.regs, zipWith RType.join S.locals T.locals,
    by rw [length_zipWith, S.regs_size, T.regs_size, min_self],
    by rw [length_zipWith, S.locals_size, T.locals_size, min_self]⟩

instance : Min (FlowState m) := ⟨joinWith⟩

theorem zipWith_join_assoc (as bs cs : List RType) :
    zipWith RType.join (zipWith RType.join as bs) cs =
      zipWith RType.join as (zipWith RType.join bs cs) := by
  induction as generalizing bs cs with
  | nil => rfl
  | cons a as ih =>
    cases bs with
    | nil => rfl
    | cons b bs =>
      cases cs with
      | nil => rfl
      | cons c cs =>
        have hhead : RType.join (RType.join a b) c = RType.join a (RType.join b c) :=
          inf_assoc a b c
        simp only [zipWith_cons_cons, hhead, ih]

theorem zipWith_join_self (as : List RType) : zipWith RType.join as as = as := by
  rw [zipWith_self]
  have hself : (fun a => RType.join a a) = id := funext fun a => inf_idem a
  rw [hself, map_id]

/-- States are ordered slot by slot. -/
instance : SemilatticeInf (FlowState m) :=
  SemilatticeInf.mk' (fun _ _ => FlowState.ext (zipWith_comm_of_comm fun a b => inf_comm a b)
      (zipWith_comm_of_comm fun a b => inf_comm a b))
    (fun S T U => FlowState.ext (zipWith_join_assoc S.regs T.regs U.regs)
      (zipWith_join_assoc S.locals T.locals U.locals))
    (fun S => FlowState.ext (zipWith_join_self S.regs) (zipWith_join_self S.locals))

end FlowState

/-! ## Transfer of one instruction -/

/-- The pool entry of an instruction when its kind fits the opcode. -/
def cpAt (m : Method) (ins : Ins) : Option Const :=
  match m.cp[ins.immIdx]? with
  | some c => if cpKindOk ins.op c.kind then some c else none
  | none => none

/-- Are all register operands of the instruction inside the register file? -/
def operandsOk (m : Method) (ins : Ins) : Bool :=
  let ru := regUse (info ins.op).sig
  !((ru.dst && ins.dstReg ≥ m.numRegs) || (ru.a && ins.aReg ≥ m.numRegs) ||
    (ru.b && ins.bReg ≥ m.numRegs))

/-- The invoke opcodes whose result type comes from a descriptor in the pool. -/
def isInvoke : Op → Bool
  | .invokevirtual | .invokespecial | .invokestatic | .invokeinterface | .invokedynamic => true
  | _ => false

/-- The descriptor text of an invoke's pool entry. -/
def invokeDesc (op : Op) (c : Const) : String :=
  if op = .invokedynamic then c.str2 else c.str3

/-- The type a field instruction writes: the descriptor's, or a reference when
the descriptor is malformed. -/
def fieldResult (c : Const) : RType :=
  match scanField c.str3.toList with
  | some (t, []) => t
  | _ => .ref

/-- The type an invoke writes, or `none` for a void descriptor. -/
def invokeResult (op : Op) (c : Const) : Option RType :=
  match scanMethodDesc (invokeDesc op c) with
  | none => some .ref
  | some rs => if rs.isVoid then none else some rs.type

/-- The type an instruction writes to `dst`, if it writes it. -/
def resultType (m : Method) (ins : Ins) : Option RType :=
  if ins.op = .getfield ∨ ins.op = .getstatic then (cpAt m ins).map fieldResult
  else if isInvoke ins.op then (cpAt m ins).bind (invokeResult ins.op)
  else if (info ins.op).result ≠ .bottom then some (info ins.op).result
  else none

/-- One abstract step. -/
def stepIns {m : Method} (ins : Ins) (S : FlowState m) : FlowState m :=
  let oi := info ins.op
  if operandsOk m ins = false then S
  else if ins.op = .iinc then S.setReg ins.dstReg .int
  else if oi.sig = .regSlot then
    if ins.immIdx < m.numLocals then S.setReg ins.dstReg oi.result else S
  else if oi.sig = .slotReg then
    -- locals are typed by what is stored
    if ins.immIdx < m.numLocals then S.setLoc ins.immIdx (S.reg ins.aReg) else S
  else
    match resultType m ins with
    | some t => S.setReg ins.dstReg t
    | none => S

def operandMsg (pc : Nat) (opName : String) (expected : RType) (slot : Nat) (found : RType)
    (isLocal : Bool) : String :=
  "pc " ++ toString pc ++ ": " ++ opName ++ " expects " ++ expected.typeName ++ " in " ++
    (if isLocal then "l" else "r") ++ toString slot ++ ", found " ++ found.typeName

/-- Does a return opcode agree with the method's descriptor? -/
def returnAgrees (op : Op) (ret : RetScan) : Bool :=
  match op with
  | .returnVoid => ret.isVoid
  | .ireturn => !ret.isVoid && ret.type = .int
  | .lreturn => !ret.isVoid && ret.type = .long
  | .freturn => !ret.isVoid && ret.type = .float
  | .dreturn => !ret.isVoid && ret.type = .double
  | _ => !ret.isVoid && ret.type = .ref

/-- Complaints about the operands the table gives a type to.  Calls are skipped:
their `a` and `b` are a base register and a count. -/
def operandMsgs {m : Method} (pc : Nat) (ins : Ins) (S : FlowState m) : List String :=
  let oi := info ins.op
  let ru := regUse oi.sig
  if oi.sig = .call ∨ oi.sig = .callQuick then []
  else
    (if ru.a ∧ oi.operandA ≠ .bottom ∧ RType.isAssignable (S.reg ins.aReg) oi.operandA = false
      then [operandMsg pc oi.name oi.operandA ins.aReg (S.reg ins.aReg) false] else []) ++
    (if ru.b ∧ oi.operandB ≠ .bottom ∧ RType.isAssignable (S.reg ins.bReg) oi.operandB = false
      then [operandMsg pc oi.name oi.operandB ins.bReg (S.reg ins.bReg) false] else [])

/-- Complaints about a malformed descriptor behind a field or invoke instruction. -/
def descriptorMsgs (m : Method) (pc : Nat) (ins : Ins) : List String :=
  match cpAt m ins with
  | none => []
  | some c =>
    if ins.op = .getfield ∨ ins.op = .getstatic then
      match scanField c.str3.toList with
      | some (_, []) => []
      | _ => ["malformed FieldRef descriptor at pc " ++ toString pc]
    else if isInvoke ins.op ∧ scanMethodDesc (invokeDesc ins.op c) = none then
      if ins.op = .invokedynamic then
        ["malformed InvokeDynamic descriptor at pc " ++ toString pc]
      else ["malformed MethodRef descriptor at pc " ++ toString pc]
    else []

/-- The complaints about one instruction in a given state. -/
def checkIns {m : Method} (ret : RetScan) (pc : Nat) (ins : Ins) (S : FlowState m) : List String :=
  let oi := info ins.op
  if operandsOk m ins = false then []
  else
    operandMsgs pc ins S ++
    (if ins.op = .iinc then
      if RType.isAssignable (S.reg ins.dstReg) .int then []
      else [operandMsg pc oi.name .int ins.dstReg (S.reg ins.dstReg) false]
    else if oi.sig = .regSlot then
      if ins.immIdx < m.numLocals ∧ oi.result ≠ .bottom ∧
          RType.isAssignable (S.loc ins.immIdx) oi.result = false then
        [operandMsg pc oi.name oi.result ins.immIdx (S.loc ins.immIdx) true] else []
    else if oi.sig = .slotReg then []
    else
      (if isReturnOp ins.op ∧ returnAgrees ins.op ret = false then
        ["pc " ++ toString pc ++ ": " ++ oi.name ++ " does not match method return type " ++
          retName ret] else []) ++
      descriptorMsgs m pc ins)

/-! ## Basic blocks -/

/-- The instruction at a pc; only asked inside the code. -/
def codeAt (m : Method) (pc : Nat) : Ins :=
  m.code.getD pc ⟨.nop, 0, 0, 0, 0⟩

/-- Branch and switch targets of an instruction. -/
def jumpTargets (m : Method) (ins : Ins) : List Nat :=
  let sig := (info ins.op).sig
  (if isBranchSig sig ∧ ins.immIdx < m.code.length then [ins.immIdx] else []) ++
  (if sig = .regCpBranch then switchTargets m ins else [])

/-- Instructions that end a block. -/
def isTerminator (op : Op) : Bool :=
  let sig := (info op).sig
  isBranchSig sig || sig = .regCpBranch || isReturnOp op || op = .athrow || op = .deoptTrap

/-- Does a block start at this pc? -/
def isLeader (m : Method) (pc : Nat) : Bool :=
  pc == 0 ||
  (range m.code.length).any (fun q =>
    (jumpTargets m (codeAt m q)).contains pc || (isTerminator (codeAt m q).op && q + 1 == pc)) ||
  m.handlers.any (fun h => h.handler == pc)

/-- First instruction of the block a pc lies in. -/
def blockOf (m : Method) : Nat → Nat
  | 0 => 0
  | pc + 1 => if isLeader m (pc + 1) then pc + 1 else blockOf m pc

/-- The instructions of the block starting at `b`, in order. -/
def blockPcs (m : Method) (b : Nat) : List Nat :=
  b :: (range' (b + 1) (m.code.length - (b + 1))).takeWhile (fun pc => !isLeader m pc)

/-- Append a successor unless it repeats the last one. -/
def pushSucc (acc : List Nat) (b : Nat) : List Nat :=
  if acc.getLast? = some b then acc else acc ++ [b]

/-- Successor blocks of the block whose last instruction is `last`. -/
def succBlocks (m : Method) (last : Nat) : List Nat :=
  let ins := codeAt m last
  let fall := if canFallThrough ins.op ∧ last + 1 < m.code.length then [last + 1] else []
  ((fall ++ jumpTargets m ins).map (blockOf m)).foldl pushSucc []

/-! ## Worklist dataflow -/

structure Flow (m : Method) where
  wl : Worklist (FlowState m)
  ops : Nat
  dead : Bool
  stateSlots : Nat
  diags : List VerifyDiag

namespace Flow

variable {m : Method}

/-- Abandon the analysis with a method-level diagnostic. -/
def abandon (st : Flow m) (msg : String) : Flow m :=
  { st with dead := true, diags := addDiag st.diags ⟨0, msg⟩ }

/-- Spend `k` elementary operations. -/
def tick (k : Nat) (st : Flow m) : Flow m :=
  let st' := { st with ops := st.ops + k }
  if st'.ops > kOpBudget ∧ st.dead = false then
    st'.abandon "verification budget exceeded" else st'

/-- Push a state into a block: seed it on the first edge, merge afterwards.  The
second component is false when a seed exceeded the state budget. -/
def flowInto (st : Flow m) (t : Nat) (e : FlowState m) : Flow m × Bool :=
  match st.wl.inAt t with
  | none =>
    let st' := { st with stateSlots := st.stateSlots + (m.numRegs + m.numLocals) }
    if st'.stateSlots > kMaxStateSlots then
      (st'.abandon "method too large to verify", false)
    else ({ st' with wl := st.wl.absorb t e }, true)
  | some _ =>
    let st' := st.tick (m.numRegs + m.numLocals)
    ({ st' with wl := st.wl.absorb t e }, true)

end Flow

/-- Is a pc covered by a handler whose entry is well formed? -/
def covers (m : Method) (h : ExceptionHandler) (pc : Nat) : Bool :=
  !(h.start ≥ h.stop || h.stop > m.code.length || h.handler ≥ m.code.length) &&
  !(pc < h.start || pc ≥ h.stop)

/-- The exception edges of one instruction, in table order. -/
def exnEdges {m : Method} (pc : Nat) (S : FlowState m) : List ExceptionHandler → Flow m → Flow m
  | [], st => st
  | h :: hs, st =>
    let st := st.tick 1
    if covers m h pc then
      match st.flowInto (blockOf m h.handler) S.handlerEntry with
      | (st', true) => exnEdges pc S hs st'
      | (st', false) => st'
    else exnEdges pc S hs st

/-- Walk the instructions of a block, pushing exception edges before each step. -/
def walkBlock {m : Method} : List Nat → FlowState m → Flow m → FlowState m × Flow m
  | [], S, st => (S, st)
  | pc :: pcs, S, st =>
    if st.dead then (S, st)
    else
      let st := exnEdges pc S m.handlers (st.tick 1)
      if st.dead then (S, st)
      else walkBlock pcs (stepIns (codeAt m pc) S) st

/-- Push the state at the end of a block into its successors. -/
def succEdges {m : Method} (S : FlowState m) : List Nat → Flow m → Flow m
  | [], st => st
  | b :: bs, st =>
    match (st.tick 1).flowInto b S with
    | (st', true) => succEdges S bs st'
    | (st', false) => st'

/-- Last instruction of a block. -/
def blockLast (m : Method) (b : Nat) : Nat :=
  (blockPcs m b).getLastD b

/-- Process one block taken from the queue. -/
def visitBlock {m : Method} (b : Nat) (S : FlowState m) (st : Flow m) : Flow m :=
  let (S', st') := walkBlock (blockPcs m b) S (st.tick 1)
  if st'.dead then st' else succEdges S' (succBlocks m (blockLast m b)) st'

/-- The worklist loop.  Every round spends at least one operation, so the
operation budget bounds the number of rounds. -/
def runWorklist {m : Method} : Nat → Flow m → Flow m
  | 0, st => st
  | fuel + 1, st =>
    match st.wl.queue with
    | [] => st
    | b :: q =>
      if st.dead ∨ st.diags.length ≥ kMaxDiags then st
      else
        match st.wl.inAt b with
        | some S => runWorklist fuel (visitBlock b S { st with wl := ⟨st.wl.ins, q⟩ })
        | none => st

/-! ## Final sweep -/

/-- The state of the sweep: the analysis, the running local types and, per
local, the points where its type changes. -/
structure Sweep (m : Method) where
  flow : Flow m
  running : List RType
  bps : List (List (Nat × RType))
  bpCount : Nat

namespace Sweep

variable {m : Method}

/-- Record that a local has type `t` from `pc` on. -/
def record (sw : Sweep m) (i pc : Nat) (t : RType) : Sweep m :=
  if sw.running.getD i .bottom = t then sw
  else
    let sw := { sw with running := sw.running.set i t }
    if sw.bpCount < kMaxBreakpoints then
      { sw with
        bpCount := sw.bpCount + 1
        bps := sw.bps.modify i (fun l => l ++ [(pc, t)]) }
    else { sw with flow := sw.flow.abandon "verification budget exceeded" }

/-- Change points at a block entry. -/
def recordEntry (sw : Sweep m) (pc : Nat) (S : FlowState m) : Nat → Sweep m
  | 0 => sw
  | i + 1 =>
    let sw := sw.recordEntry pc S i
    if sw.flow.dead then sw else sw.record i pc (S.loc i)

end Sweep

/-- Judge the instructions of a block in its final state. -/
def sweepBlock {m : Method} (ret : RetScan) : List Nat → FlowState m → Sweep m → Sweep m
  | [], _, sw => sw
  | pc :: pcs, S, sw =>
    if sw.flow.dead then sw
    else
      let ins := codeAt m pc
      let fl := sw.flow.tick 1
      -- the budget tick may end the analysis: `stepIns` then does nothing
      if fl.dead then { sw with flow := fl }
      else
        let sw := { sw with
          flow := { fl with
            diags := addDiags fl.diags ((checkIns ret pc ins S).map (VerifyDiag.mk pc)) } }
        let sw :=
          if operandsOk m ins ∧ (info ins.op).sig = .slotReg ∧ ins.immIdx < m.numLocals then
            sw.record ins.immIdx (pc + 1) (S.reg ins.aReg) else sw
        sweepBlock ret pcs (stepIns ins S) sw

/-- Sweep the visited blocks in code order. -/
def sweepBlocks {m : Method} (ret : RetScan) : List Nat → Sweep m → Sweep m
  | [], sw => sw
  | b :: bs, sw =>
    if sw.flow.dead ∨ sw.flow.diags.length ≥ kMaxDiags then sw
    else
      match sw.flow.wl.inAt b with
      | none => sweepBlocks ret bs sw
      | some S =>
        let sw := if m.handlers = [] then sw else sw.recordEntry b S m.numLocals
        if sw.flow.dead then sw
        else sweepBlocks ret bs (sweepBlock ret (blockPcs m b) S sw)

/-- Locals must keep one type inside a protected range: the first change point
strictly behind the start and before the end is reported. -/
def stabilityDiags (m : Method) (bps : List (List (Nat × RType))) : List VerifyDiag :=
  m.handlers.flatMap fun h =>
    if h.start ≥ h.stop ∨ h.stop > m.code.length ∨ h.handler ≥ m.code.length then []
    else
      bps.zipIdx.flatMap fun p =>
        match p.1.dropWhile (fun bp => bp.1 ≤ h.start) with
        | (pc, _) :: _ =>
          if pc < h.stop then
            [⟨pc, "local l" ++ toString p.2 ++ " changes type within protected range"⟩] else []
        | [] => []

/-! ## Verification -/

/-- Entry types of the locals: the receiver of an instance method, then the
parameters, then nothing. -/
def entryLocals (m : Method) (params : List RType) : List RType :=
  let base := if m.isStatic then [] else [RType.ref]
  (base ++ params ++ replicate m.numLocals RType.bottom).take m.numLocals

/-- The state at the first instruction. -/
def entryState (m : Method) (params : List RType) : FlowState m :=
  ⟨replicate m.numRegs .bottom, entryLocals m params, length_replicate, by
    rw [entryLocals, length_take, length_append, length_replicate]
    omega⟩

/-- Local slots the parameters need. -/
def neededLocals (m : Method) (params : List RType) : Nat :=
  (if m.isStatic then 0 else 1) + params.length

/-- The analysis before its first round: block 0 seeded with the entry state. -/
def seededFlow (m : Method) (diags : List VerifyDiag) (params : List RType) : Flow m × Bool :=
  Flow.flowInto ⟨⟨replicate m.code.length none, []⟩, 0, false, 0, diags⟩ 0 (entryState m params)

/-- The type check: dataflow to a fixpoint, one sweep over the final states, and
the protected-range verdict. -/
def typeCheck (m : Method) (ret : RetScan) (params : List RType) (diags : List VerifyDiag) :
    List VerifyDiag :=
  match seededFlow m diags params with
  | (st, false) => st.diags
  | (st, true) =>
    let st := runWorklist (kOpBudget + 1) st
    if st.dead then st.diags
    else
      let sw := sweepBlocks ret ((range m.code.length).filter (isLeader m))
        ⟨st, ((st.wl.inAt 0).map FlowState.locals).getD [], replicate m.numLocals [], 0⟩
      if sw.flow.dead then sw.flow.diags
      else addDiags sw.flow.diags (stabilityDiags m sw.bps)

/-- The diagnostics of a method. -/
def verifyDiags (m : Method) : List VerifyDiag :=
  if m.code.length > 0xFFFFFFFF then [⟨0, "method too large to verify"⟩]
  else
    let diags := addDiags [] (structuralDiags m)
    if m.code = [] ∨ diags.length ≥ kMaxDiags then diags
    else
      match parseParams m.descriptor, scanMethodDesc m.descriptor with
      | some params, some ret =>
        if neededLocals m params > m.numLocals then
          addDiag diags ⟨0, "method parameters require " ++
            toString (neededLocals m params) ++ " local slots but numLocals=" ++
            toString m.numLocals⟩
        else typeCheck m ret params diags
      | _, _ => addDiag diags ⟨0, "malformed method descriptor"⟩

/-- Verdict and diagnostics. -/
structure VerifyResult where
  ok : Bool
  diags : List VerifyDiag
  deriving DecidableEq, Repr

/-- Verify a method. -/
def verify (m : Method) : VerifyResult :=
  ⟨(verifyDiags m).isEmpty, verifyDiags m⟩

end B2Compiler.Rbc
