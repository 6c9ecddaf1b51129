import B2Compiler.Rbc.Verifier

/-!
# Execution paths of a method and what its instructions read

A path follows the control flow of one method: the entry, fall-through, branches,
every target of a switch, and from every covered instruction an edge to each of
its handlers.  Along a path every register and local carries the type of the
value last written to it; `bottom` is a slot nothing was written to.  Memory is
taken at its declared types, so a field or array load yields a value of the type
its descriptor or opcode names.

Some writes leave a register whose type the instruction stream does not show.  A
quickened load or call has lost its descriptor, and the interpreter's return
handler does not deliver the result of a method whose descriptor `parseReturn`
does not read (a boolean, byte, char or short result).  Such a register is marked
as not `tracked`.
-/

namespace B2Compiler.Rbc

/-! ## Reads -/

inductive Need where
  | typed (t : RType)
  | anyValue
  deriving DecidableEq, Repr

/-- Is the need met by a value of type `t`?  An uninitialised register meets none. -/
def Need.met : Need → RType → Bool
  | .typed d, t => t ≠ .bottom && RType.isAssignable t d
  | .anyValue, t => t ≠ .bottom

/-- A register read of an instruction.  `checked` tells whether the verifier
compares this operand with its need. -/
structure Read where
  reg : Nat
  need : Need
  checked : Bool
  deriving DecidableEq, Repr

/-- The operands the opcode table gives a type to. -/
def tableReads (ins : Ins) : List Read :=
  let oi := info ins.op
  let ru := regUse oi.sig
  (if ru.a ∧ oi.operandA ≠ .bottom then [⟨ins.aReg, .typed oi.operandA, true⟩] else []) ++
  (if ru.b ∧ oi.operandB ≠ .bottom then [⟨ins.bReg, .typed oi.operandB, true⟩] else [])

/-- Need of a value stored to the field behind a pool entry. -/
def fieldNeed (m : Method) (ins : Ins) : Need :=
  match cpAt m ins with
  | some c =>
    match scanField c.str3.toList with
    | some (t, []) => .typed t
    | _ => .anyValue
  | none => .anyValue

/-- Needs of the declared parameters of an invoke. -/
def paramNeeds (m : Method) (ins : Ins) : List Need :=
  match cpAt m ins with
  | some c =>
    match scanParamTypes (invokeDesc ins.op c) with
    | some (ts, _) => ts.map Need.typed
    | none => []
  | none => []

def windowReads (ins : Ins) (needs : List Need) : List Read :=
  (List.range ins.bReg).map fun i => ⟨ins.aReg + i, needs.getD i .anyValue, false⟩

/-- The receiver of a dispatching invoke, looked at before anything else. -/
def receiverRead (ins : Ins) : Read := ⟨ins.aReg, .typed .ref, false⟩

/-- The registers an instruction reads beyond the operands in the table. -/
def extraReads (m : Method) (ins : Ins) : List Read :=
  match ins.op with
  | .iinc => [⟨ins.dstReg, .typed .int, true⟩]
  -- the `dst` field of an array store is the stored value
  | .iastore | .bastore | .castore | .sastore => [⟨ins.dstReg, .typed .int, false⟩]
  | .lastore => [⟨ins.dstReg, .typed .long, false⟩]
  | .fastore => [⟨ins.dstReg, .typed .float, false⟩]
  | .dastore => [⟨ins.dstReg, .typed .double, false⟩]
  | .aastore => [⟨ins.dstReg, .typed .ref, false⟩]
  | .putfield => [⟨ins.bReg, fieldNeed m ins, false⟩]
  | .putstatic => [⟨ins.dstReg, fieldNeed m ins, false⟩]
  | .putfieldQuick => [⟨ins.bReg, .anyValue, false⟩]
  -- dimension counts occupy `a .. a + b - 1`; the table covers the first
  | .multianewarray => (windowReads ins (List.replicate ins.bReg (.typed .int))).tail
  | .invokevirtual | .invokespecial | .invokeinterface =>
    receiverRead ins :: windowReads ins (.typed .ref :: paramNeeds m ins)
  | .invokestatic => windowReads ins (paramNeeds m ins)
  | .invokevirtualQuick | .invokespecialQuick | .invokeinterfaceQuick =>
    receiverRead ins :: windowReads ins []
  | .invokestaticQuick => windowReads ins []
  -- `invokedynamic` raises before it looks at a register
  | _ => []

/-- All register reads of an instruction. -/
def reads (m : Method) (ins : Ins) : List Read :=
  tableReads ins ++ extraReads m ins

/-! ## Path states -/

structure Cell where
  type : RType
  tracked : Bool
  deriving DecidableEq, Repr

/-- Types of registers and locals along a path. -/
structure PathState where
  regs : Nat → Cell
  locals : Nat → RType

namespace PathState

def setReg (P : PathState) (r : Nat) (c : Cell) : PathState :=
  { P with regs := Function.update P.regs r c }

def setLoc (P : PathState) (i : Nat) (t : RType) : PathState :=
  { P with locals := Function.update P.locals i t }

/-- Handler entry: the exception in `r0`, no other register. -/
def handlerEntry (P : PathState) : PathState :=
  { P with regs := fun r => if r = 0 then ⟨.ref, true⟩ else ⟨.bottom, true⟩ }

end PathState

/-- A value of type `t` where the declared type is `d`; a declared reference may
be null, and nothing is declared for an unset slot. -/
def Holds (t d : RType) : Prop :=
  if d = .bottom then t = .bottom else t ≠ .bottom ∧ RType.isAssignable t d = true

/-- The register moves, which copy a value as it is. -/
def isMove : Op → Bool
  | .imove | .lmove | .fmove | .dmove | .amove => true
  | _ => false

/-- The quickened calls. -/
def isQuickCall (op : Op) : Bool :=
  (info op).sig = .callQuick

/-- Is the result of an invoke lost by the interpreter's return handler?  The
descriptor is not void, but `parseReturn` does not read it. -/
def dropsResult (m : Method) (ins : Ins) : Bool :=
  isInvoke ins.op &&
  match cpAt m ins with
  | some c => parseReturn (invokeDesc ins.op c) = .bottom
  | none => false

/-- What executing an instruction normally does to the slots. -/
inductive Writes (m : Method) (ins : Ins) (P : PathState) : PathState → Prop where
  | load (hsig : (info ins.op).sig = .regSlot) :
      Writes m ins P (P.setReg ins.dstReg ⟨P.locals ins.immIdx, true⟩)
  | store (hsig : (info ins.op).sig = .slotReg) :
      Writes m ins P (P.setLoc ins.immIdx (P.regs ins.aReg).type)
  | move (hop : isMove ins.op = true) :
      Writes m ins P (P.setReg ins.dstReg ⟨(P.regs ins.aReg).type, true⟩)
  | result {d t : RType} (hsig : (info ins.op).sig ≠ .regSlot) (hop : isMove ins.op = false)
      (hres : resultType m ins = some d) (hkept : dropsResult m ins = false) (ht : Holds t d) :
      Writes m ins P (P.setReg ins.dstReg ⟨t, true⟩)
  | dropped {d : RType} (hres : resultType m ins = some d) (hdrop : dropsResult m ins = true) :
      Writes m ins P (P.setReg ins.dstReg ⟨(P.regs ins.dstReg).type, false⟩)
  | quick {t : RType} (hop : ins.op = .getfieldQuick ∨ isQuickCall ins.op = true)
      (ht : t ≠ .bottom) :
      Writes m ins P (P.setReg ins.dstReg ⟨t, false⟩)
  | none (hsig : (info ins.op).sig ≠ .slotReg) (hop : ins.op ≠ .getfieldQuick)
      (hres : resultType m ins = none) :
      Writes m ins P P

/-- Targets of the jumps an instruction can take. -/
def branchTargets (m : Method) (ins : Ins) : List Nat :=
  let sig := (info ins.op).sig
  if isBranchSig sig then [ins.immIdx]
  else if sig = .regCpBranch then
    match switchPayload m ins with
    | some v => (switchWords ins.op v).map BitVec.toNat
    | none => []
  else []

/-- Where control can go when an instruction completes. -/
def nextPcs (m : Method) (pc : Nat) : List Nat :=
  let ins := codeAt m pc
  (if canFallThrough ins.op then [pc + 1] else []) ++ branchTargets m ins

/-- The slots when the method is entered: its parameters, and nothing else. -/
def Entry (m : Method) (P : PathState) : Prop :=
  (∀ r, P.regs r = ⟨.bottom, true⟩) ∧
  ∃ params, parseParams m.descriptor = some params ∧
    ∀ i, Holds (P.locals i) ((entryLocals m params).getD i .bottom)

/-- A program point and the slots some path from the entry reaches it with. -/
inductive Path (m : Method) : Nat → PathState → Prop where
  | entry {P : PathState} (hP : Entry m P) : Path m 0 P
  | next {pc pc' : Nat} {P P' : PathState} (hpath : Path m pc P) (hpc : pc < m.code.length)
      (hw : Writes m (codeAt m pc) P P') (hnext : pc' ∈ nextPcs m pc) : Path m pc' P'
  | exception {pc : Nat} {P : PathState} (hpath : Path m pc P) (hpc : pc < m.code.length)
      (h : ExceptionHandler) (hmem : h ∈ m.handlers) (hcov : h.start ≤ pc ∧ pc < h.stop) :
      Path m h.handler P.handlerEntry

/-- The register read finds a value it can use. -/
def ReadOk (P : PathState) (r : Read) : Prop :=
  r.need.met (P.regs r.reg).type = true

/-- The verifier knows nothing about this read: the operand is not compared with
its need, or the register was written by an instruction that shows no type. -/
def Unchecked (P : PathState) (r : Read) : Prop :=
  r.checked = false ∨ (P.regs r.reg).tracked = false

/-- A load finds its local slot initialised and of the loaded type. -/
def LocalReadOk (ins : Ins) (P : PathState) : Prop :=
  (info ins.op).sig = .regSlot → (Need.typed (info ins.op).result).met (P.locals ins.immIdx) = true

/-- On every path every executed instruction finds its operands initialised and
of the types it requires. -/
def ReadsOk (m : Method) : Prop :=
  ∀ pc P, Path m pc P → pc < m.code.length →
    (∀ r ∈ reads m (codeAt m pc), ReadOk P r) ∧ LocalReadOk (codeAt m pc) P

/-- On every path the reads the verifier knows nothing about find what they need. -/
def UncheckedReadsOk (m : Method) : Prop :=
  ∀ pc P, Path m pc P → pc < m.code.length → ∀ r ∈ reads m (codeAt m pc), Unchecked P r → ReadOk P r

end B2Compiler.Rbc
