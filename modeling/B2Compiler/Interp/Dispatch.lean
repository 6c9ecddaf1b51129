import B2Compiler.Interp.Machine

/-!
# The tier-0 interpreter: handlers, dispatch and entry points

One definition for each handler family of the dispatch loop, the loop's single
step, and the two entry points.  Handlers take the innermost frame as it was at
fetch.  A reference that the source reads through an index the verifier has
bounded is read with a default; local slots are not covered by that, because the
frame of a class initializer has none, so those accesses are checked.
-/

namespace B2Compiler.Interp

open Rbc Runtime

/-- Advance past the instruction. -/
def next (m : Machine) (f : Frame) : Flow := .running (m.setTop f.next)

/-- Write the destination register and advance. -/
def put (m : Machine) (f : Frame) (ins : Ins) (v : Value) : Flow :=
  .running (m.setTop (f.setReg ins.dstReg v).next)

/-- Write a fresh or found object to the destination and advance. -/
def putRef (m : Machine) (f : Frame) (ins : Ins) (r : Nat × Runtime) : Flow :=
  put { m with rt := r.2 } f ins (.refVal r.1)

/-- Constant of the executing method's pool. -/
def poolAt (E : Env) (f : Frame) (i : Nat) : Const :=
  (method E.program f.method).cp.getD i {}

/-- Jump, counting a backward one. -/
def jump (m : Machine) (f : Frame) (target : Nat) : Flow :=
  let m := if target < f.pc then { m with rt := m.rt.bumpBackedge f.method } else m
  .running (m.setTop { f with pc := target })

/-! ## Constants, locals, branches -/

def execLdc (E : Env) (m : Machine) (f : Frame) (ins : Ins) : Flow :=
  let c := poolAt E f ins.immIdx
  match c.kind with
  | .string => putRef m f ins (m.rt.internString c.str)
  | .klass =>
    let (cls, rt) := m.rt.classId c.str
    let m := { m with rt }
    match initClassIfNeeded E m f cls with
    | some flow => flow
    | none => putRef m f ins (m.rt.classObject cls)
  | .methodType | .methodHandle => raise E m kClsInternalError kMsgLdcUnsupported
  | _ => raise E m kClsInternalError "ldc of unsupported constant kind"

def execLoad (m : Machine) (f : Frame) (ins : Ins) : Flow :=
  match f.locals[ins.immIdx]? with
  | some v => put m f ins v
  | none => .undefined

def execStore (m : Machine) (f : Frame) (ins : Ins) : Flow :=
  if ins.immIdx < f.locals.length then
    next m { f with locals := f.locals.set ins.immIdx (f.reg ins.aReg) }
  else .undefined

/-- Outcome of a conditional branch; `none` for any other opcode. -/
def branchTaken (ins : Ins) (reg : Nat → Value) : Option Bool :=
  let a := reg ins.aReg
  let b := reg ins.bReg
  match ins.op with
  | .ifeq => some (a.asInt = 0)
  | .ifne => some (a.asInt ≠ 0)
  | .iflt => some (a.asInt.toInt < 0)
  | .ifge => some (a.asInt.toInt ≥ 0)
  | .ifgt => some (a.asInt.toInt > 0)
  | .ifle => some (a.asInt.toInt ≤ 0)
  | .ifnull => some a.isNull
  | .ifnonnull => some (!a.isNull)
  | .ifIcmpeq => some (a.asInt = b.asInt)
  | .ifIcmpne => some (a.asInt ≠ b.asInt)
  | .ifIcmplt => some (a.asInt.toInt < b.asInt.toInt)
  | .ifIcmpge => some (a.asInt.toInt ≥ b.asInt.toInt)
  | .ifIcmpgt => some (a.asInt.toInt > b.asInt.toInt)
  | .ifIcmple => some (a.asInt.toInt ≤ b.asInt.toInt)
  | .ifAcmpeq => some (Value.sameObject a b)
  | .ifAcmpne => some (!Value.sameObject a b)
  | _ => none

/-- Target of a `tableswitch`: payload `low, high, default, targets…`. -/
def tableTarget (tbl : List (BitVec 32)) (sel : BitVec 32) : Nat :=
  let low := (tbl.getD 0 0).toInt
  let high := (tbl.getD 1 0).toInt
  if low ≤ sel.toInt ∧ sel.toInt ≤ high then
    (tbl.getD (3 + (sel.toInt - low).toNat) 0).toNat
  else (tbl.getD 2 0).toNat

/-- Target of a `lookupswitch`: payload `n, default, match, target, …`. -/
def lookupTarget (tbl : List (BitVec 32)) (sel : BitVec 32) : Nat :=
  let pairs := (tbl.getD 0 0).toInt.toNat
  match (List.range pairs).find? fun i => tbl.getD (2 + 2 * i) 0 = sel with
  | some i => (tbl.getD (3 + 2 * i) 0).toNat
  | none => (tbl.getD 1 0).toNat

/-! ## Fields -/

/-- Slot of a field access, through the cache of the site or by resolution. -/
def fieldSlot (E : Env) (m : Machine) (f : Frame) (ins : Ins) : Option Nat × Machine :=
  match siteIC m.siteICs f.method f.pc with
  | some e => (some e.x, m.count E.cfg fun s => { s with icHits := s.icHits + 1 })
  | none =>
    let m := m.count E.cfg fun s => { s with icMisses := s.icMisses + 1 }
    match m.rt.resolveField (poolAt E f ins.immIdx) with
    | (some rf, rt) =>
      (some rf.slot, { m with rt, siteICs := fillSiteIC m.siteICs f.method f.pc rf.slot rf.cls })
    | (none, rt) => (none, { m with rt })

/-- Value of a field that was never written: the zero of its declared type. -/
def defaultField (E : Env) (m : Machine) (f : Frame) (ins : Ins) (obj : Nat) : Flow :=
  if ¬ m.rt.heap.isInstance obj then raise E m kClsInternalError kMsgNonInstance
  else
    let (rf, rt) := m.rt.resolveField (poolAt E f ins.immIdx)
    let m := { m with rt }
    let ft := (rf.map ResolvedField.type).getD .bottom
    if ft = .bottom then raise E m kClsInternalError "malformed field descriptor"
    else put m f ins (zeroOf ft)

def execGetfield (E : Env) (m : Machine) (f : Frame) (ins : Ins) : Flow :=
  let obj := f.reg ins.aReg
  if obj.isNull then raiseNpe E m
  else
    match fieldSlot E m f ins with
    | (none, m) => raise E m kClsInternalError kMsgUnresolvedField
    | (some slot, m) =>
      let (v, heap) := m.rt.heap.loadField obj.asObj slot
      let m := m.setHeap heap
      if v.type = .bottom then defaultField E m f ins obj.asObj else put m f ins v

/-- Store a register into a field slot and advance. -/
def storeSlot (E : Env) (m : Machine) (f : Frame) (ins : Ins) (slot : Nat) : Flow :=
  match m.rt.heap.storeField (f.reg ins.aReg).asObj slot (f.reg ins.bReg) with
  | some heap => next (m.setHeap heap) f
  | none => raise E m kClsInternalError kMsgNonInstance

def execPutfield (E : Env) (m : Machine) (f : Frame) (ins : Ins) : Flow :=
  if (f.reg ins.aReg).isNull then raiseNpe E m
  else
    match fieldSlot E m f ins with
    | (none, m) => raise E m kClsInternalError kMsgUnresolvedField
    | (some slot, m) => storeSlot E m f ins slot

def execGetfieldQuick (E : Env) (m : Machine) (f : Frame) (ins : Ins) : Flow :=
  let obj := f.reg ins.aReg
  if obj.isNull then raiseNpe E m
  else
    let (v, heap) := m.rt.heap.loadField obj.asObj (slotOfFieldOffset ins.immIdx)
    let m := m.setHeap heap
    if v.type = .bottom then
      if ¬ m.rt.heap.isInstance obj.asObj then raise E m kClsInternalError kMsgNonInstance
      else raise E m kClsInternalError "quickened getfield of unwritten field (v0)"
    else put m f ins v

def execPutfieldQuick (E : Env) (m : Machine) (f : Frame) (ins : Ins) : Flow :=
  if (f.reg ins.aReg).isNull then raiseNpe E m
  else storeSlot E m f ins (slotOfFieldOffset ins.immIdx)

/-- The common part of the static accesses: resolve, and initialise the declaring
class on first use; the rest of the access runs on an initialised class. -/
def withStatic (E : Env) (m : Machine) (f : Frame) (c : Const)
    (access : Machine → ResolvedField → Flow) : Flow :=
  match m.rt.resolveField c with
  | (none, rt) => raise E { m with rt } kClsInternalError kMsgUnresolvedField
  | (some rf, rt) =>
    let m := { m with rt }
    match initClassIfNeeded E m f rf.cls with
    | some flow => flow
    | none => access m rf

/-- Read a static; an unset one reads as the zero of its type. -/
def loadStatic (E : Env) (f : Frame) (ins : Ins) (m : Machine) (rf : ResolvedField) : Flow :=
  let v := m.rt.loadStatic rf.id
  if v.type = .bottom then
    if rf.type = .bottom then raise E m kClsInternalError "malformed field descriptor"
    else put m f ins (zeroOf rf.type)
  else put m f ins v

/-- Write a static; `dst` is the register read. -/
def storeStatic (f : Frame) (ins : Ins) (m : Machine) (rf : ResolvedField) : Flow :=
  next { m with rt := m.rt.storeStatic rf.id (f.reg ins.dstReg) } f

def execGetstatic (E : Env) (m : Machine) (f : Frame) (ins : Ins) : Flow :=
  let c := poolAt E f ins.immIdx
  match m.rt.builtinStatic c with
  | some r => put m f ins (.refVal r)
  | none => withStatic E m f c (loadStatic E f ins)

def execPutstatic (E : Env) (m : Machine) (f : Frame) (ins : Ins) : Flow :=
  let c := poolAt E f ins.immIdx
  match m.rt.builtinStatic c with
  | some _ => raise E m kClsInternalError "store to builtin static"
  | none => withStatic E m f c (storeStatic f ins)

/-! ## Arrays -/

/-- Null and bounds checks of an element access; the rest of the access gets the
array and the index. -/
def withElem (E : Env) (m : Machine) (f : Frame) (ins : Ins) (access : Nat → Nat → Flow) :
    Flow :=
  let arr := f.reg ins.aReg
  let idx := (f.reg ins.bReg).asInt
  let len := m.rt.heap.arrayLength arr.asObj
  if arr.isNull then raiseNpe E m
  else if idx.toInt < 0 ∨ len ≤ idx.toNat then raiseAioobe E m idx len
  else access arr.asObj idx.toNat

def arrayLoad (E : Env) (m : Machine) (f : Frame) (ins : Ins) : Flow :=
  withElem E m f ins fun arr idx =>
    let v := m.rt.heap.loadElem arr idx
    if v.type = .bottom then raise E m kClsInternalError kMsgNonArray else put m f ins v

/-- Store a value into an element and advance. -/
def storeAt (E : Env) (m : Machine) (f : Frame) (arr idx : Nat) (v : Value) : Flow :=
  match m.rt.heap.storeElem arr idx v with
  | some heap => next (m.setHeap heap) f
  | none => raise E m kClsInternalError kMsgNonArray

def narrowStore (op : Op) (v : Value) : Value :=
  match op with
  | .bastore => .intVal ((v.asInt.setWidth 8).signExtend 32)
  | .castore => .intVal ((v.asInt.setWidth 16).setWidth 32)
  | .sastore => .intVal ((v.asInt.setWidth 16).signExtend 32)
  | _ => v

def arrayStore (E : Env) (m : Machine) (f : Frame) (ins : Ins) : Flow :=
  withElem E m f ins fun arr idx =>
    storeAt E m f arr idx (narrowStore ins.op (f.reg ins.dstReg))

/-- Element class name of a reference array with a class component. -/
def classComponent (name : String) : Option String :=
  match name.toList with
  | '[' :: 'L' :: rest =>
    if rest.getLast? = some ';' then some (String.ofList rest.dropLast) else none
  | _ => none

def arrayComponent (name : String) : Option String :=
  match name.toList with
  | '[' :: '[' :: rest => some (String.ofList ('[' :: rest))
  | _ => none

/-- Store a non-null reference after the element-type check. -/
def storeChecked (E : Env) (m : Machine) (f : Frame) (arr idx : Nat) (v : Value) : Flow :=
  let name := (m.rt.classInfo (m.rt.heap.classOf arr)).name
  let valueCls := m.rt.heap.classOf v.asObj
  let store (m : Machine) (ok : Bool) : Flow :=
    if ok then storeAt E m f arr idx v
    else raise E m kClsArrayStore ("class " ++ m.rt.dottedClassName valueCls)
  match classComponent name with
  | some elem =>
    let (cls, rt) := m.rt.classId elem
    store { m with rt } (rt.isAssignableFrom cls valueCls)
  | none =>
    match arrayComponent name with
    | some elem => store m ((m.rt.classInfo valueCls).name == elem)
    | none => raise E m kClsInternalError "aastore into primitive-component array"

def execAastore (E : Env) (m : Machine) (f : Frame) (ins : Ins) : Flow :=
  withElem E m f ins fun arr idx =>
    let v := f.reg ins.dstReg
    if v.isNull then storeAt E m f arr idx v else storeChecked E m f arr idx v

def withLength (E : Env) (m : Machine) (len : BitVec 32) (alloc : Nat → Flow) : Flow :=
  if len.toInt < 0 then raise E m kClsNegativeArraySize (toString len.toInt)
  else alloc len.toNat

def execNewArray (E : Env) (m : Machine) (f : Frame) (ins : Ins) : Flow :=
  withLength E m (f.reg ins.aReg).asInt fun len =>
    putRef m f ins (m.rt.newArray (ins.immIdx % 256) len)

def execAnewArray (E : Env) (m : Machine) (f : Frame) (ins : Ins) : Flow :=
  withLength E m (f.reg ins.aReg).asInt fun len =>
    let (cls, rt) := m.rt.classId (poolAt E f ins.immIdx).str
    putRef m f ins (rt.newRefArray cls len)

def execArraylength (E : Env) (m : Machine) (f : Frame) (ins : Ins) : Flow :=
  let arr := f.reg ins.aReg
  if arr.isNull then raiseNpe E m
  else if ¬ m.rt.heap.isArray arr.asObj then
    raise E m kClsInternalError "arraylength on non-array"
  else put m f ins (.intVal (BitVec.ofNat 32 (m.rt.heap.arrayLength arr.asObj)))

def execMultianewarray (E : Env) (m : Machine) (f : Frame) (ins : Ins) : Flow :=
  if ins.bReg = 0 then raise E m kClsInternalError "multianewarray with zero dimensions"
  else if kMaxMultiDims < ins.bReg then
    raise E m kClsInternalError "multianewarray exceeds 255 dimensions"
  else
    let clsName := (poolAt E f ins.immIdx).str
    if ¬ isArrayName clsName then
      raise E m kClsInternalError "multianewarray of non-array class"
    else
      let dims := (List.range ins.bReg).map fun i => (f.reg (ins.aReg + i)).asInt
      match dims.find? fun d => d.toInt < 0 with
      | some d => raise E m kClsNegativeArraySize (toString d.toInt)
      | none =>
        let (cls, rt) := m.rt.classId clsName
        putRef m f ins (rt.newMultiArray cls dims)

/-! ## Objects and monitors -/

def execNew (E : Env) (m : Machine) (f : Frame) (ins : Ins) : Flow :=
  let (cls, rt) := m.rt.classId (poolAt E f ins.immIdx).str
  let m := { m with rt }
  match initClassIfNeeded E m f cls with
  | some flow => flow
  | none => putRef m f ins (m.rt.newInstance cls)

def execCheckcast (E : Env) (m : Machine) (f : Frame) (ins : Ins) : Flow :=
  let v := f.reg ins.aReg
  if v.isNull then put m f ins v
  else
    let (target, rt) := m.rt.classId (poolAt E f ins.immIdx).str
    let m := { m with rt }
    let actual := m.rt.heap.classOf v.asObj
    if m.rt.isAssignableFrom target actual then put m f ins v
    else
      raise E m kClsClassCast ("class " ++ m.rt.dottedClassName actual
        ++ " cannot be cast to class " ++ m.rt.dottedClassName target)

def execInstanceof (E : Env) (m : Machine) (f : Frame) (ins : Ins) : Flow :=
  let v := f.reg ins.aReg
  if v.isNull then put m f ins (.intVal 0)
  else
    let (target, rt) := m.rt.classId (poolAt E f ins.immIdx).str
    let m := { m with rt }
    let ok := m.rt.isAssignableFrom target (m.rt.heap.classOf v.asObj)
    put m f ins (.intVal (if ok then 1 else 0))

/-- A monitor operation: its failures raise, its success changes the frame's record. -/
def execMonitor (E : Env) (m : Machine) (f : Frame) (ins : Ins)
    (op : Heap → Nat → MonFail × Heap) (record : Nat → List Nat → List Nat) : Flow :=
  let v := f.reg ins.aReg
  if v.isNull then raiseNpe E m
  else
    match op m.rt.heap v.asObj with
    | (.null, heap) => raiseNpe E (m.setHeap heap)
    | (.notOwner, heap) => raise E (m.setHeap heap) kClsIllegalMonitor ""
    | (.none, heap) => next (m.setHeap heap) { f with monitors := record v.asObj f.monitors }

/-- The record is most recent first. -/
def execMonitorenter (E : Env) (m : Machine) (f : Frame) (ins : Ins) : Flow :=
  execMonitor E m f ins Heap.monitorenter fun r monitors => r :: monitors

def execMonitorexit (E : Env) (m : Machine) (f : Frame) (ins : Ins) : Flow :=
  execMonitor E m f ins Heap.monitorexit fun r monitors => monitors.erase r

/-! ## Calls -/

/-- Text of an unresolved reference. -/
def refText (ref : Const) : String := ref.str ++ "." ++ ref.str2 ++ ref.str3

/-- Where a virtual call goes: a cached target, a builtin, a resolved target, or
nowhere. -/
inductive VirtualTarget where
  | cached (target : Nat)
  | builtin (b : Builtin)
  | resolved (target : Nat)
  | missing
  deriving DecidableEq, Repr

def virtualTarget (E : Env) (m : Machine) (mIdx site : Nat) (recv : Value) (ref : Const) :
    VirtualTarget :=
  match siteIC m.siteICs mIdx site with
  | some e => .cached e.x
  | none =>
    match m.rt.lookupBuiltinVirtual (m.rt.heap.classOf recv.asObj) ref.str2 ref.str3 with
    | .none =>
      match resolveMethod E.program ref with
      | some t => .resolved t
      | none => .missing
    | b => .builtin b

/-- Dispatch of a virtual or interface call at a cache site.  The profile is
written behind the push also when the push trapped and a handler caught the trap. -/
def dispatchVirtual (E : Env) (m : Machine) (f : Frame) (ins : Ins) (site : Nat)
    (kind : DispatchSiteKind) (ref : Const) : Flow :=
  let recv := f.reg ins.aReg
  let recvCls := m.rt.heap.classOf recv.asObj
  let miss := m.count E.cfg fun s => { s with icMisses := s.icMisses + 1 }
  match virtualTarget E m f.method site recv ref with
  | .cached t =>
    let hit := m.count E.cfg fun s => { s with icHits := s.icHits + 1 }
    (pushCall E hit f ins t).map (recordDispatch f.method site kind recvCls t)
  | .builtin b =>
    match miss.rt.execBuiltin E.host b ((f.regs.drop ins.aReg).take ins.bReg) with
    | some rt =>
      next (recordDispatch f.method site kind kDispatchNoRecvClass kDispatchNoTarget
        { miss with rt }) f
    | none => raise E miss kClsInternalError "builtin arity mismatch"
  | .resolved t =>
    let filled :=
      { miss with siteICs := fillSiteIC miss.siteICs f.method site t recvCls }
    (pushCall E filled f ins t).map (recordDispatch f.method site kind recvCls t)
  | .missing => raise E miss kClsNoSuchMethod (refText ref)

/-- Site kind of a call opcode. -/
def siteKind (op : Op) : DispatchSiteKind :=
  match op with
  | .invokevirtual | .invokevirtualQuick => .virtual
  | .invokeinterface | .invokeinterfaceQuick => .interface
  | .invokespecial | .invokespecialQuick => .special
  | _ => .static

def execInvokevirtual (E : Env) (m : Machine) (f : Frame) (ins : Ins) : Flow :=
  if (f.reg ins.aReg).isNull then raiseNpe E m
  else dispatchVirtual E m f ins f.pc (siteKind ins.op) (poolAt E f ins.immIdx)

/-- The quickened form: the immediate is the cache site and, when the cache is
cold, also the pool index. -/
def execInvokevirtualQuick (E : Env) (m : Machine) (f : Frame) (ins : Ins) : Flow :=
  let meth := method E.program f.method
  let ref := poolAt E f ins.immIdx
  if (f.reg ins.aReg).isNull then raiseNpe E m
  else if meth.code.length ≤ ins.immIdx then
    raise E m kClsInternalError "quickened call site id out of range"
  else if siteIC m.siteICs f.method ins.immIdx = none ∧
      (meth.cp.length ≤ ins.immIdx ∨ (ref.kind ≠ .methodRef ∧ ref.kind ≠ .interfaceMethodRef)) then
    raise E (m.count E.cfg fun s => { s with icMisses := s.icMisses + 1 })
      kClsInternalError kMsgColdQuick
  else dispatchVirtual E m f ins ins.immIdx (siteKind ins.op) ref

def callStatic (E : Env) (m : Machine) (f : Frame) (ins : Ins) (target : Nat) : Flow :=
  (pushCall E m f ins target).map
    (recordDispatch f.method f.pc (siteKind ins.op) kDispatchNoRecvClass target)

def execInvokespecial (E : Env) (m : Machine) (f : Frame) (ins : Ins) : Flow :=
  let ref := poolAt E f ins.immIdx
  if (f.reg ins.aReg).isNull then raiseNpe E m
  else
    match resolveMethod E.program ref with
    | some t => callStatic E m f ins t
    | none => raise E m kClsNoSuchMethod (refText ref)

def execInvokestatic (E : Env) (m : Machine) (f : Frame) (ins : Ins) : Flow :=
  let ref := poolAt E f ins.immIdx
  match resolveMethod E.program ref with
  | none => raise E m kClsNoSuchMethod (refText ref)
  | some t =>
    match initClassIfNeeded E m f m.programClass with
    | some flow => flow
    | none => callStatic E m f ins t

def execInvokespecialQuick (E : Env) (m : Machine) (f : Frame) (ins : Ins) : Flow :=
  if (f.reg ins.aReg).isNull then raiseNpe E m
  else if E.program.methods.length ≤ ins.immIdx then
    raise E m kClsInternalError "quickened method id out of range"
  else callStatic E m f ins ins.immIdx

def execInvokestaticQuick (E : Env) (m : Machine) (f : Frame) (ins : Ins) : Flow :=
  if E.program.methods.length ≤ ins.immIdx then
    raise E m kClsInternalError "quickened method id out of range"
  else
    match initClassIfNeeded E m f m.programClass with
    | some flow => flow
    | none => callStatic E m f ins ins.immIdx

/-- The caller after a normal return.  The result goes to the register of the
invoke at the caller's pc; only the caller of an initializer is not advanced. -/
def resumeCaller (p : Program) (callee : Method) (isVoid : Bool) (retVal : Value)
    (caller : Frame) : Frame :=
  let caller :=
    if isVoid = false ∧ parseReturn callee.descriptor ≠ .bottom then
      match (method p caller.method).code[caller.pc]? with
      | some call => caller.setReg call.dstReg retVal
      | none => caller
    else caller
  if isClinit callee then caller else caller.next

def execReturn (E : Env) (m : Machine) (f : Frame) (ins : Ins) : Flow :=
  let isVoid : Bool := ins.op = .returnVoid
  let callee := method E.program f.method
  let retVal := if isVoid then .bottom else f.reg ins.aReg
  let m := m.setHeap (releaseMonitorsLIFO m.rt.heap f)
  match m.frames.tail with
  | [] => .ended .returned { m with frames := [], result := retVal }
  | caller :: rest =>
    .running { m with frames := resumeCaller E.program callee isVoid retVal caller :: rest }

def execAthrow (E : Env) (m : Machine) (f : Frame) (ins : Ins) : Flow :=
  let v := f.reg ins.aReg
  if v.isNull then raiseNpe E m else throwException E m v.asObj

def execPoll (E : Env) (m : Machine) (f : Frame) : Flow :=
  let m := m.count E.cfg fun s => { s with polls := s.polls + 1 }
  let m :=
    if E.cfg.traceSafepoints then
      { m with safepointTrace := m.safepointTrace ++ dumpFrames E m.rt m.frames }
    else m
  next m f

/-- The handler of an instruction. -/
def exec (E : Env) (m : Machine) (f : Frame) (ins : Ins) : Flow :=
  match ins.op with
  | .nop | .guardNonNull | .guardClass => next m f
  | .safepointPoll => execPoll E m f
  | .aconstNull => put m f ins .nullVal
  | .iconst => put m f ins (.intVal ins.imm)
  | .fconst => put m f ins (.floatVal ins.imm)
  | .lconst => put m f ins (.longVal (poolAt E f ins.immIdx).i64)
  | .dconst => put m f ins (.doubleVal (poolAt E f ins.immIdx).f64)
  | .ldc => execLdc E m f ins
  | .iload | .lload | .fload | .dload | .aload => execLoad m f ins
  | .istore | .lstore | .fstore | .dstore | .astore => execStore m f ins
  | .imove | .lmove | .fmove | .dmove | .amove => put m f ins (f.reg ins.aReg)
  | .goto => jump m f ins.immIdx
  | .tableswitch => jump m f (tableTarget (poolAt E f ins.immIdx).ints (f.reg ins.aReg).asInt)
  | .lookupswitch => jump m f (lookupTarget (poolAt E f ins.immIdx).ints (f.reg ins.aReg).asInt)
  | .getfield => execGetfield E m f ins
  | .putfield => execPutfield E m f ins
  | .getstatic => execGetstatic E m f ins
  | .putstatic => execPutstatic E m f ins
  | .getfieldQuick => execGetfieldQuick E m f ins
  | .putfieldQuick => execPutfieldQuick E m f ins
  | .newArray => execNewArray E m f ins
  | .anewArray => execAnewArray E m f ins
  | .arraylength => execArraylength E m f ins
  | .iaload | .laload | .faload | .daload | .aaload | .baload | .caload | .saload =>
    arrayLoad E m f ins
  | .iastore | .lastore | .fastore | .dastore | .bastore | .castore | .sastore =>
    arrayStore E m f ins
  | .aastore => execAastore E m f ins
  | .multianewarray => execMultianewarray E m f ins
  | .new => execNew E m f ins
  | .checkcast => execCheckcast E m f ins
  | .instanceof => execInstanceof E m f ins
  | .monitorenter => execMonitorenter E m f ins
  | .monitorexit => execMonitorexit E m f ins
  | .invokevirtual | .invokeinterface => execInvokevirtual E m f ins
  | .invokespecial => execInvokespecial E m f ins
  | .invokestatic => execInvokestatic E m f ins
  | .invokedynamic => raise E m kClsBootstrapMethod kMsgIndyUnsupported
  | .invokevirtualQuick | .invokeinterfaceQuick => execInvokevirtualQuick E m f ins
  | .invokespecialQuick => execInvokespecialQuick E m f ins
  | .invokestaticQuick => execInvokestaticQuick E m f ins
  | .returnVoid | .ireturn | .lreturn | .freturn | .dreturn | .areturn => execReturn E m f ins
  | .athrow => execAthrow E m f ins
  | .deoptTrap => raise E m kClsInternalError kMsgDeoptTrap
  -- what is left are the arithmetic group and the conditional branches
  | _ =>
    match arith E.host.ops ins f.reg with
    | some (.value v) => put m f ins v
    | some .divByZero => raise E m kClsArithmetic kMsgDivByZero
    | none => if branchTaken ins f.reg = some true then jump m f ins.immIdx else next m f

/-- Instruction under a frame's pc. -/
def fetch (E : Env) (f : Frame) : Option Ins :=
  (method E.program f.method).code[f.pc]?

/-- One trip around the dispatch loop. -/
def step (E : Env) (m : Machine) : Flow :=
  match m.frames with
  | [] => .undefined
  | f :: _ =>
    match fetch E f with
    | none => raise E m kClsInternalError "pc out of range (corrupt frame)"
    | some ins =>
      exec E (m.count E.cfg fun s => { s with instructions := s.instructions + 1 }) f ins

/-- Close a flow that ended: the census of allocations is taken. -/
def Flow.finish : Flow → Flow
  | .ended status m =>
    .ended status { m with stats := { m.stats with allocations := m.rt.heap.objectCount } }
  | flow => flow

/-! ## Entry points -/

/-- What survives between two runs of an interpreter. -/
structure Interpreter where
  rt : Runtime
  siteICs : List (List SiteIC) := []
  dispatchProfiles : List (List DispatchSiteProfile) := []
  deriving DecidableEq, Repr, Inhabited

namespace Interpreter

def new (p : Program) : Interpreter := { rt := init p }

/-- The machine of a run before any frame is pushed. -/
def machine (I : Interpreter) : Machine :=
  { rt := I.rt, siteICs := I.siteICs, dispatchProfiles := I.dispatchProfiles }

/-- The interpreter a run leaves behind. -/
def ofMachine (m : Machine) : Interpreter := ⟨m.rt, m.siteICs, m.dispatchProfiles⟩

end Interpreter

/-- End a run before dispatch with an exception object. -/
def refuse (E : Env) (m : Machine) (cls msg : String) : Flow :=
  let (exc, rt) := m.rt.makeException cls msg
  .ended .threw ({ m with rt, exception := exc }.count E.cfg fun s =>
      { s with exceptions := s.exceptions + 1 })

/-- Diagnostics of the first method the verifier rejects. -/
def gateDiags (p : Program) : Option (List VerifyDiag) :=
  (p.methods.find? fun m => !(verify m).ok).map fun m => (verify m).diags

/-- Intern the program class for the loop. -/
def internProgram (E : Env) (m : Machine) : Machine :=
  let (cls, rt) := m.rt.classId E.program.className
  { m with rt, programClass := cls }

/-- Enter the dispatch loop; a frame that carries an exception starts inside the
exception algorithm. -/
def enterLoop (E : Env) (m : Machine) : Flow :=
  let m := internProgram E m
  match m.frames with
  | f :: _ =>
    if f.pendingException ≠ 0 then
      throwException E (m.setTop { f with pendingException := 0 }) f.pendingException
    else .running m
  | [] => .running m

/-- The lock of a synchronized entry method, or the class of the trap. -/
def entryLock (E : Env) (entry : Method) (args : List Value) (rt : Runtime) :
    Except String Nat × Runtime :=
  let lock : Except String Nat × Runtime :=
    if entry.isStatic then
      let (cls, rt) := rt.classId E.program.className
      let (obj, rt) := rt.classObject cls
      (.ok obj, rt)
    else
      match args with
      | recv :: _ => (if recv.isNull then .error kClsNullPointer else .ok recv.asObj, rt)
      | [] => (.error kClsNullPointer, rt)
  match lock with
  | (.error cls, rt) => (.error cls, rt)
  | (.ok obj, rt) =>
    match rt.heap.monitorenter obj with
    | (.none, heap) => (.ok obj, { rt with heap })
    | (_, heap) => (.error kClsIllegalMonitor, { rt with heap })

/-- `run`: verify every method, resolve the entry, push its frame and dispatch. -/
def startRun (E : Env) (I : Interpreter) (name descriptor : String) (args : List Value) :
    Flow :=
  let m := I.machine
  Flow.finish <| match gateDiags E.program with
  | some diags => .ended .verifyFailed { m with verifyDiags := diags }
  | none =>
    match E.program.find name descriptor with
    | none => refuse E m kClsNoSuchMethod (name ++ descriptor)
    | some id =>
      let entry := method E.program id
      if args.length < paramCount descriptor + (if entry.isStatic then 0 else 1) then
        refuse E m kClsInternalError ("entry arguments insufficient for " ++ name ++ descriptor)
      else
        let f : Frame :=
          { method := id
            locals := growTo args entry.numLocals
            regs := List.replicate entry.numRegs .bottom }
        let begin (rt : Runtime) (f : Frame) : Flow :=
          enterLoop E { m with rt := rt.bumpInvocations id, frames := [f] }
        if entry.isSynchronized then
          match entryLock E entry args m.rt with
          | (.error cls, rt) => refuse E { m with rt } cls ""
          | (.ok lock, rt) => begin rt { f with monitors := [lock] }
        else begin m.rt f

/-- `resume`: enter the loop at a reconstructed frame. -/
def startResume (E : Env) (I : Interpreter) (frame : Frame) : Flow :=
  let m := I.machine
  Flow.finish <| match gateDiags E.program with
  | some diags => .ended .verifyFailed { m with verifyDiags := diags }
  | none =>
    match E.program.methods[frame.method]? with
    | none => refuse E m kClsInternalError "resume frame does not match the program"
    | some meth =>
      if meth.code.length ≤ frame.pc then
        refuse E m kClsInternalError "resume frame does not match the program"
      else
        let f :=
          { frame with
            locals := growTo frame.locals meth.numLocals
            regs := growTo frame.regs meth.numRegs }
        enterLoop E { m with frames := [f] }

end B2Compiler.Interp
