import B2Compiler.Interp.Runtime
import B2Compiler.Rbc.Verifier

/-!
# The tier-0 interpreter: frames, exceptions and calls

Machine state of the dispatch loop and the operations its handlers share: the
exception algorithm, class initialisation, frame pushes, inline caches and the
dispatch profile.  The frame stack is a list with the innermost frame first.  A
frame names its method by index; an index outside the table stands for the
runtime's stand-in method.
-/

namespace B2Compiler.Interp

open Rbc Runtime

/-! ## State -/

/-- One activation. -/
structure Frame where
  method : Nat
  pc : Nat := 0
  locals : List Value := []
  regs : List Value := []
  monitors : List Nat := []
  pendingException : Nat := 0
  callerPc : Nat := 0
  deriving DecidableEq, Repr, Inhabited

structure InterpConfig where
  maxFrames : Nat := 8192
  traceSafepoints : Bool := false
  collectStats : Bool := true
  deriving DecidableEq, Repr, Inhabited

structure InterpStats where
  instructions : Nat := 0
  polls : Nat := 0
  calls : Nat := 0
  icHits : Nat := 0
  icMisses : Nat := 0
  exceptions : Nat := 0
  allocations : Nat := 0
  deriving DecidableEq, Repr, Inhabited

/-- Inline-cache entry: field slot or call target in `x`, class in `y`. -/
structure SiteIC where
  x : Nat := 0
  y : Nat := 0
  valid : Bool := false
  deriving DecidableEq, Repr, Inhabited

inductive DispatchSiteKind where
  | virtual | interface | special | static
  deriving DecidableEq, Repr, Inhabited

/-- Marks a profile record without a receiver class. -/
def kDispatchNoRecvClass : Nat := 2 ^ 32 - 1

/-- Marks a profile record without a target. -/
def kDispatchNoTarget : Nat := 2 ^ 32 - 1

def kMaxDispatchProfileEntries : Nat := 3

structure DispatchEntry where
  recvClass : Nat := kDispatchNoRecvClass
  target : Nat := kDispatchNoTarget
  count : Nat := 0
  deriving DecidableEq, Repr, Inhabited

structure DispatchSiteProfile where
  kind : DispatchSiteKind := .virtual
  megamorphic : Bool := false
  count : Nat := 0
  entries : List DispatchEntry := List.replicate kMaxDispatchProfileEntries {}
  deriving DecidableEq, Repr, Inhabited

inductive RunStatus where
  | returned | threw | verifyFailed
  deriving DecidableEq, Repr, Inhabited

/-- What the dispatch loop works on: the runtime, the frame stack, the caches and
the result of the active run. -/
structure Machine where
  rt : Runtime
  frames : List Frame := []
  siteICs : List (List SiteIC) := []
  dispatchProfiles : List (List DispatchSiteProfile) := []
  programClass : Nat := 0
  result : Value := .bottom
  exception : Nat := 0
  verifyDiags : List VerifyDiag := []
  stats : InterpStats := {}
  safepointTrace : String := ""
  deriving DecidableEq, Repr, Inhabited

/-- What an interpreter is built from. -/
structure Env where
  program : Program
  cfg : InterpConfig := {}
  host : Host

/-- Outcome of one trip around the loop.  `undefined` is an access outside a
frame's local slots, on which the source is silent. -/
inductive Flow where
  | running (m : Machine)
  | ended (status : RunStatus) (m : Machine)
  | undefined
  deriving DecidableEq, Repr, Inhabited

namespace Flow

/-- Continue a running flow. -/
def map (f : Machine → Machine) : Flow → Flow
  | running m => running (f m)
  | ended s m => ended s m
  | undefined => undefined

end Flow

/-! ## Pinned names and messages -/

def kClsArithmetic : String := "java/lang/ArithmeticException"
def kClsNullPointer : String := "java/lang/NullPointerException"
def kClsArrayIndexOob : String := "java/lang/ArrayIndexOutOfBoundsException"
def kClsNegativeArraySize : String := "java/lang/NegativeArraySizeException"
def kClsClassCast : String := "java/lang/ClassCastException"
def kClsArrayStore : String := "java/lang/ArrayStoreException"
def kClsIllegalMonitor : String := "java/lang/IllegalMonitorStateException"
def kClsStackOverflow : String := "java/lang/StackOverflowError"
def kClsNoSuchMethod : String := "java/lang/NoSuchMethodError"
def kClsBootstrapMethod : String := "java/lang/BootstrapMethodError"
def kClsInternalError : String := "java/lang/InternalError"

def kMsgDivByZero : String := "/ by zero"
def kMsgIndyUnsupported : String := "invokedynamic not supported in v0"
def kMsgDeoptTrap : String := "deopt_trap executed in T0 without deopt metadata (v0)"
def kMsgLdcUnsupported : String := "ldc of methodtype/methodhandle not supported in v0"
def kMsgUnresolvedField : String := "unresolved field"
def kMsgNonArray : String := "array element access on non-array"
def kMsgNonInstance : String := "field access on non-instance"
def kMsgColdQuick : String := "quickened virtual call with cold inline cache (v0)"

def kClinitName : String := "<clinit>"
def kClinitDesc : String := "()V"

/-- Is a method, by name and descriptor, a class initializer? -/
def isClinit (m : Method) : Bool := m.name == kClinitName && m.descriptor == kClinitDesc

/-- Bound on the dimension registers of a `multianewarray`. -/
def kMaxMultiDims : Nat := 255

/-- The `Native` bit of the method flags. -/
def isNative (m : Method) : Bool := m.flags &&& 0x0100 != 0

/-- Grow a vector with a default up to `n` entries. -/
def growWith {α : Type} (l : List α) (n : Nat) (d : α) : List α :=
  l ++ List.replicate (n - l.length) d

namespace Frame

def reg (f : Frame) (r : Nat) : Value := f.regs.getD r .bottom

def setReg (f : Frame) (r : Nat) (v : Value) : Frame := { f with regs := f.regs.set r v }

def next (f : Frame) : Frame := { f with pc := f.pc + 1 }

end Frame

namespace Machine

/-- Replace the innermost frame. -/
def setTop (m : Machine) (f : Frame) : Machine := { m with frames := f :: m.frames.tail }

def setHeap (m : Machine) (h : Heap) : Machine := { m with rt := { m.rt with heap := h } }

/-- Update the statistics, if they are collected. -/
def count (m : Machine) (cfg : InterpConfig) (f : InterpStats → InterpStats) : Machine :=
  if cfg.collectStats then { m with stats := f m.stats } else m

end Machine

/-- Spelling of a value tag in a dump. -/
def kindSpelling (t : RType) : String := if t = .bottom then "bot" else t.typeName

/-- Payload of a slot in a dump. -/
def payloadText (host : Host) (rt : Runtime) (v : Value) : String :=
  match v.type with
  | .int => toString v.asInt.toInt
  | .long => toString v.asLong.toInt
  | .float => javaFloatString host v.asFloat
  | .double => javaDoubleString host v.asDouble
  | .null => "null"
  | .bottom => "bot"
  | .ref =>
    rt.classNameOf v.asObj ++ "@" ++ toString v.asObj ++
      (if rt.heap.isString v.asObj then " str=" ++ rt.heap.stringOf v.asObj else "")

/-- The line of locals or registers of a frame. -/
def slotLine (host : Host) (rt : Runtime) (label slotKind : String) (slots : List Value) :
    String :=
  "  " ++ label ++ String.join (slots.mapIdx fun i v =>
      " " ++ slotKind ++ toString i ++ ":" ++ kindSpelling v.type ++ "="
        ++ payloadText host rt v) ++ "\n"

def dumpFrame (E : Env) (rt : Runtime) (depth : Nat) (f : Frame) : String :=
  let m := method E.program f.method
  "frame " ++ toString depth ++ " method=" ++ m.name ++ m.descriptor ++ " pc="
    ++ toString f.pc ++ "\n"
    ++ slotLine E.host rt "local" "l" f.locals
    ++ slotLine E.host rt "reg" "r" f.regs
    ++ "  monitors=" ++ toString f.monitors.length
    ++ String.join (f.monitors.map fun r => "," ++ toString r) ++ "\n"

/-- Innermost frame first, one blank line between frames. -/
def dumpFrames (E : Env) (rt : Runtime) (frames : List Frame) : String :=
  String.intercalate "\n" (frames.mapIdx (dumpFrame E rt))

/-! ## Exceptions -/

/-- Release the monitors a frame still holds, most recent first; failures are
ignored. -/
def releaseMonitorsLIFO (h : Heap) (f : Frame) : Heap :=
  f.monitors.foldl (fun h r => (h.monitorexit r).2) h

/-- First handler in table order that covers `pc` and catches `exc`.  Catch types
are interned on the way. -/
def findHandler (m : Method) (pc exc : Nat) :
    List ExceptionHandler → Runtime → Option ExceptionHandler × Runtime
  | [], rt => (none, rt)
  | h :: hs, rt =>
    if pc < h.start ∨ h.stop ≤ pc then findHandler m pc exc hs rt
    else if h.catchType < 0 then (some h, rt)
    else
      let (cls, rt) := rt.classId (m.cp.getD h.catchType.toNat {}).str
      if rt.isAssignableFrom cls (rt.heap.classOf exc) then (some h, rt)
      else findHandler m pc exc hs rt

/-- A frame that caught `exc`: the registers die, the first one carries the object. -/
def enterHandler (m : Method) (f : Frame) (h : ExceptionHandler) (exc : Nat) : Frame :=
  { f with
    pc := h.handler
    regs := (List.replicate m.numRegs .bottom).set 0 (.refVal exc)
    pendingException := 0 }

/-- Pop frames until one catches `exc`; `none` when the stack empties. -/
def unwind (p : Program) (exc : Nat) : List Frame → Runtime → Option (List Frame) × Runtime
  | [], rt => (none, rt)
  | f :: rest, rt =>
    let m := method p f.method
    match findHandler m f.pc exc m.handlers rt with
    | (some h, rt) => (some (enterHandler m f h exc :: rest), rt)
    | (none, rt) => unwind p exc rest { rt with heap := releaseMonitorsLIFO rt.heap f }

/-- The exception algorithm. -/
def throwException (E : Env) (m : Machine) (exc : Nat) : Flow :=
  let m := m.count E.cfg fun s => { s with exceptions := s.exceptions + 1 }
  match unwind E.program exc m.frames m.rt with
  | (some frames, rt) => .running { m with frames, rt }
  | (none, rt) => .ended .threw { m with frames := [], rt, exception := exc }

/-- Build an exception and throw it. -/
def raise (E : Env) (m : Machine) (cls msg : String) : Flow :=
  let (exc, rt) := m.rt.makeException cls msg
  throwException E { m with rt } exc

def raiseNpe (E : Env) (m : Machine) : Flow := raise E m kClsNullPointer ""

def raiseAioobe (E : Env) (m : Machine) (idx : BitVec 32) (len : Nat) : Flow :=
  raise E m kClsArrayIndexOob
    ("Index " ++ toString idx.toInt ++ " out of bounds for length " ++ toString len)

/-- Mark the class, look its initializer up and push the initializer's frame over
the innermost frame `f`, whose pc stays at the trigger. -/
def pushClinit (E : Env) (m : Machine) (f : Frame) (cls : Nat) : Flow :=
  let m := { m with rt := m.rt.markInitialized cls }
  let clinit := m.rt.findClinit E.program cls
  if E.cfg.maxFrames ≤ m.frames.length then raise E m kClsStackOverflow ""
  else
    let nf : Frame :=
      { method := clinit
        callerPc := f.pc
        regs := List.replicate (method E.program clinit).numRegs .bottom }
    let m := { m with frames := nf :: m.frames }
    let m := m.count E.cfg fun s => { s with calls := s.calls + 1 }
    .running { m with rt := m.rt.bumpInvocations clinit }

/-- The first-use probe: `none` when the instruction may execute. -/
def initClassIfNeeded (E : Env) (m : Machine) (f : Frame) (cls : Nat) : Option Flow :=
  if m.rt.needsInit E.program cls then some (pushClinit E m f cls) else none

/-- The frame of a call: arguments are the register window, clamped to the
caller's registers; the other locals are unset. -/
def calleeFrame (callee : Method) (target : Nat) (call : Ins) (caller : Frame) : Frame :=
  { method := target
    callerPc := caller.pc
    locals := growTo ((caller.regs.drop call.aReg).take call.bReg) callee.numLocals
    regs := List.replicate callee.numRegs .bottom }

def pushCall (E : Env) (m : Machine) (f : Frame) (call : Ins) (target : Nat) : Flow :=
  let callee := method E.program target
  if callee.isAbstract || isNative callee then
    raise E m kClsNoSuchMethod (E.program.className ++ "." ++ callee.name ++ callee.descriptor)
  else if E.cfg.maxFrames ≤ m.frames.length then raise E m kClsStackOverflow ""
  else
    let m := { m with frames := calleeFrame callee target call f :: m.frames }
    let m := m.count E.cfg fun s => { s with calls := s.calls + 1 }
    .running { m with rt := m.rt.bumpInvocations target }

/-- Valid cache entry of a site. -/
def siteIC (ics : List (List SiteIC)) (mIdx site : Nat) : Option SiteIC :=
  match (ics.getD mIdx [])[site]? with
  | some e => if e.valid then some e else none
  | none => none

def fillSiteIC (ics : List (List SiteIC)) (mIdx site x y : Nat) : List (List SiteIC) :=
  (growWith ics (mIdx + 1) []).modify mIdx fun perMethod =>
    (growWith perMethod (site + 1) {}).set site ⟨x, y, true⟩

/-- Record a receiver class in the entries of a site: refresh its entry, else take
the first free one; `none` when all entries hold other classes. -/
def recordReceiver (recvClass target : Nat) (entries : List DispatchEntry) :
    Option (List DispatchEntry) :=
  match entries.findIdx? fun e => e.count ≠ 0 ∧ e.recvClass = recvClass with
  | some i => some (entries.modify i fun e => { e with target, count := bump32 e.count })
  | none =>
    match entries.findIdx? fun e => e.count = 0 with
    | some i => some (entries.set i ⟨recvClass, target, 1⟩)
    | none => none

def recordAt (kind : DispatchSiteKind) (recvClass target : Nat) (sp : DispatchSiteProfile) :
    DispatchSiteProfile :=
  let sp := { sp with kind, count := bump32 sp.count }
  if recvClass = kDispatchNoRecvClass then
    if target = kDispatchNoTarget then sp
    else
      { sp with entries := sp.entries.modify 0 fun e =>
          ⟨kDispatchNoRecvClass, target, bump32 e.count⟩ }
  else if sp.megamorphic then sp
  else
    match recordReceiver recvClass target sp.entries with
    | some entries => { sp with entries }
    | none => { sp with megamorphic := true }

def recordDispatch (mIdx site : Nat) (kind : DispatchSiteKind) (recvClass target : Nat)
    (m : Machine) : Machine :=
  { m with dispatchProfiles :=
      (growWith m.dispatchProfiles (mIdx + 1) []).modify mIdx fun perMethod =>
        (growWith perMethod (site + 1) {}).modify site (recordAt kind recvClass target) }

end B2Compiler.Interp
