import Mathlib.Algebra.Order.Ring.Nat
import Mathlib.Data.List.Sort
import B2Compiler.Lib.WriteLog
import B2Compiler.Passes.Support

/-!
# Array snapshots of the escape analysis

An array that stays virtual is described to the deoptimizer, or to the point where it is
materialized, by an array virtual object: the length, then a dense list of element values.
The values are looked up backwards along the memory chain, for the constant indices the
uses of the allocation name.

Two places of the pass make such a list.  The frame-state listing resolves it for every
memory state a snapshot may observe; the partial escape takes it once, before the first
use that lets the array escape.
-/

namespace B2Compiler.Passes.Escape

open Ir IRType

/-- Step cap of one walk along a chain. -/
def kPeaMaxChainSteps : Nat := 10000

/-! ## Small helpers -/

/-- A pinned node's memory input, or invalid when it has none. -/
def memInputOf (g : Store) (n : NodeId) : NodeId :=
  match (List.range (g.numInputs n)).find? fun s => roleOfSlot g n s == .mem with
  | some s => g.input n s
  | none => kInvalidNodeId

/-- The types a default value constant exists for. -/
def hasDefault (t : RawType) : Bool :=
  [int.raw, long.raw, float.raw, double.raw, null.raw, ref.raw].contains t

/-- The default value constant of a type: zero or null; invalid for the other types. -/
def defaultConstant (g : Store) (t : RawType) : Store × NodeId :=
  if t = int.raw then g.constantI 0
  else if t = long.raw then g.constantL 0
  else if t = float.raw then g.constantF 0
  else if t = double.raw then g.constantD 0
  else if t = null.raw ∨ t = ref.raw then g.constantNull
  else (g, kInvalidNodeId)

/-- The value of an integer constant node. -/
def intConstant (g : Store) (n : NodeId) : Option Int :=
  if g.nodeCount ≤ n ∨ (g.node n).kind ≠ .constantI then none
  else some ((g.node n).constValue.setWidth 32).toInt

/-- The element type of an array allocation: a primitive array carries it, the others are
reference arrays. -/
def elemTyOf (g : Store) (alloc : NodeId) (kind : NodeKind) : RawType :=
  if kind = .newArray then (g.node alloc).payload.setWidth 8 else ref.raw

/-- `static_cast<std::size_t>` of an index. -/
def asSize (idx : Int) : Nat := (idx % 2 ^ 64).toNat

def makeArrayVirtualObject (g : Store) (elemType : RawType) (length : NodeId)
    (elements : List NodeId) : Store × NodeId :=
  g.makeRaw .virtualObjectState (length :: elements) (elemType.setWidth 32) 1 0

/-! ## The uses of an allocation -/

inductive UseClass where
  | reader | writer | lengthReader | isNullUser | argEscape | returnEscape | fieldEscape
  | dynamicIndex | identityReject | exceptionReject | fsEscape | phiReject | castReject
  | instanceOfReject | vobjHeld | chainLink | unknownReject
  deriving DecidableEq, Repr, Inhabited

structure ClassifiedUse where
  user : NodeId
  slot : Nat
  cls : UseClass
  deriving DecidableEq, Repr, Inhabited

/-- Classifies one live use of an allocation. -/
def classifyUse (g : Store) (user : NodeId) (slot : Nat) : UseClass :=
  let role := roleOfSlot g user slot
  if role = .ctrl ∨ role = .mem then .chainLink
  else match (g.node user).kind with
    | .loadField => if slot = 2 then .reader else .unknownReject
    | .storeField => if slot = 2 then .writer else .fieldEscape
    | .storeStatic => if slot = 2 then .fieldEscape else .unknownReject
    | .loadElem => if slot = 2 then .reader else .unknownReject
    | .storeElem =>
      if slot = 2 then
        if (intConstant g (g.input user 3)).isSome then .writer else .dynamicIndex
      else if slot = 4 then .fieldEscape else .unknownReject
    | .arrayLength => if slot = 0 then .lengthReader else .unknownReject
    | .isNull => if slot = 0 then .isNullUser else .unknownReject
    | .callStatic | .callVirtual | .callInterface | .callDynamic =>
      if role = .data then .argEscape else .unknownReject
    | .returnNode => if slot = 1 then .returnEscape else .unknownReject
    | .unwind => if slot = 1 then .exceptionReject else .unknownReject
    | .refEq => .identityReject
    | .monitorEnter | .monitorExit => if slot = 2 then .identityReject else .unknownReject
    | .checkCast => if slot = 1 then .castReject else .unknownReject
    | .instanceOf => if slot = 0 then .instanceOfReject else .unknownReject
    | .phi => .phiReject
    | .frameState => .fsEscape
    | .virtualObjectState => .vobjHeld
    | _ => .unknownReject

/-- The live uses of an allocation, in the order of their ids. -/
def classifiedUses (g : Store) (alloc : NodeId) : List ClassifiedUse :=
  ((g.usesOf alloc).filterMap fun u =>
    if g.nodeCount ≤ u.user ∨ (g.node u.user).isDead then none
    else some ⟨u.user, u.slot, classifyUse g u.user u.slot⟩).insertionSort fun a b =>
      a.user ≤ b.user

/-- The constant index a use names. -/
def indexOfUse (g : Store) (u : ClassifiedUse) : Option Int :=
  let kind := (g.node u.user).kind
  if kind = .loadElem ∨ kind = .storeElem then intConstant g (g.input u.user 3) else none

def pushNew (l : List Int) (idx : Int) : List Int := if idx ∈ l then l else l ++ [idx]

/-- The constant indices of the readers and writers, sorted. -/
def elemIndices (g : Store) (uses : List ClassifiedUse) : List Int :=
  (((uses.filter fun u => u.cls = .reader ∨ u.cls = .writer).filterMap
    (indexOfUse g)).foldl pushNew []).insertionSort fun a b => a ≤ b

/-- The constant indices of the readers. -/
def readElems (g : Store) (uses : List ClassifiedUse) : List Int :=
  ((uses.filter fun u => u.cls = .reader).filterMap fun u =>
    let kind := (g.node u.user).kind
    if kind = .loadField ∨ kind = .storeField then none
    else intConstant g (g.input u.user 3)).foldl pushNew []

structure FieldLookup where
  value : NodeId := kInvalidNodeId
  merged : Bool := false
  deriving DecidableEq, Repr, Inhabited

/-- A node at which control paths meet. -/
def isMerge (k : NodeKind) : Bool := k == .phi || k == .region || k == .loopBegin

/-- Backward walk along the memory chain for the value of a field or an element. -/
def chainLookup (g : Store) (alloc : NodeId) (array : Bool) (fieldId : BitVec 32)
    (index : Int) : Nat → NodeId → FieldLookup
  | 0, _ => {}
  | steps + 1, cur =>
    let nd := g.node cur
    if cur = kInvalidNodeId ∨ g.nodeCount ≤ cur then {}
    else if isMerge nd.kind then { merged := true }
    else if array = false ∧ nd.kind = .storeField ∧ nd.payload = fieldId ∧
        g.input cur 2 = alloc then { value := g.input cur 3 }
    else if array = true ∧ nd.kind = .storeElem ∧ g.input cur 2 = alloc ∧
        intConstant g (g.input cur 3) = some index then { value := g.input cur 4 }
    else chainLookup g alloc array fieldId index steps (memInputOf g cur)

/-- The value of an array element visible at a memory state. -/
def elemLookup (g : Store) (alloc mem : NodeId) (index : Int) : FieldLookup :=
  chainLookup g alloc true 0 index kPeaMaxChainSteps mem

/-- A value that cannot be recorded. -/
def unusable (g : Store) (v : NodeId) : Bool :=
  v == kInvalidNodeId || decide (g.nodeCount ≤ v) || (g.node v).isDead

/-! ## The frame-state listing -/

/-- The graph and the default constants one plan made. -/
structure FsRun where
  g : Store
  defCache : List (RawType × NodeId) := []
  deriving Inhabited

/-- One default constant per type and plan. -/
def defOf (s : FsRun) (ty : RawType) : FsRun × NodeId :=
  let cached := (s.defCache.lookup ty).getD kInvalidNodeId
  if cached = kInvalidNodeId then
    let (g, n) := defaultConstant s.g ty
    ({ g, defCache := (ty, n) :: s.defCache }, n)
  else (s, cached)

/-- The array part of a resolved state. -/
structure FsVobjVals where
  elems : List NodeId
  len : NodeId
  deriving DecidableEq, Repr, Inhabited

/-- The largest index that is resolved at the memory state or read somewhere, `none` at a
merge. -/
def maxIncluded (g : Store) (alloc mem : NodeId) (reads : List Int) : List Int → Int → Option Int
  | [], maxIdx => some maxIdx
  | idx :: rest, maxIdx =>
    let fl := elemLookup g alloc mem idx
    if fl.merged then none
    else maxIncluded g alloc mem reads rest
      (if fl.value ≠ kInvalidNodeId ∨ idx ∈ reads then max maxIdx idx else maxIdx)

/-- The value of one listed index: resolved, the default of a read element, or invalid. -/
def listedValue (s : FsRun) (alloc mem : NodeId) (ty : RawType) (reads : List Int)
    (idx : Int) : FsRun × NodeId :=
  let fl := elemLookup s.g alloc mem idx
  if fl.value ≠ kInvalidNodeId then (s, fl.value)
  else if idx ∈ reads then defOf s ty
  else (s, kInvalidNodeId)

/-- Fills the included slots. -/
def fillListed (alloc mem : NodeId) (ty : RawType) (reads : List Int) :
    List Int → FsRun → List NodeId → FsRun × Option (List NodeId)
  | [], s, elems => (s, some elems)
  | idx :: rest, s, elems =>
    if elems.length ≤ asSize idx then fillListed alloc mem ty reads rest s elems
    else
      let (s', v) := listedValue s alloc mem ty reads idx
      if unusable s'.g v then (s', none)
      else fillListed alloc mem ty reads rest s' (elems.set (asSize idx) v)

/-- Resolves the array state visible at a memory state. -/
def resolveFsVals (alloc : NodeId) (kind : NodeKind) (indices reads : List Int)
    (mem : NodeId) (s : FsRun) : FsRun × Option FsVobjVals :=
  let len := s.g.input alloc 1
  let ty := elemTyOf s.g alloc kind
  if s.g.nodeCount ≤ len ∨ (s.g.node len).isDead then (s, none)
  else match maxIncluded s.g alloc mem reads indices (-1) with
    | none => (s, none)
    | some maxIdx =>
      let size := (asSize maxIdx + 1) % 2 ^ 64
      match fillListed alloc mem ty reads indices s (List.replicate size kInvalidNodeId) with
      | (s, none) => (s, none)
      | (s, some elems) =>
        let (s, dflt) := defOf s ty
        if dflt = kInvalidNodeId then (s, none)
        else (s, some ⟨elems.map fun v => if v = kInvalidNodeId then dflt else v, len⟩)

/-! ## The partial escape -/

/-- How taking a snapshot ends; `undefined` is a write outside the list. -/
inductive Snapshot (α : Type) where
  | refused
  | undefined
  | taken (a : α)
  deriving DecidableEq, Repr, Inhabited

/-- The indices that are read, or written before the escape point. -/
def snapElems (g : Store) (uses : List ClassifiedUse) (e : NodeId) (indices : List Int) :
    List Int :=
  indices.filter fun idx => uses.any fun u =>
    indexOfUse g u == some idx && (u.cls == .reader || (u.cls == .writer && decide (u.user < e)))

def fillSnapshot (alloc mem : NodeId) (ty : RawType) :
    List Int → Store → List NodeId → Store × Snapshot (List NodeId)
  | [], g, elems => (g, .taken elems)
  | idx :: rest, g, elems =>
    let fl := elemLookup g alloc mem idx
    if fl.merged then (g, .refused)
    else
      let (g', v) :=
        if fl.value ≠ kInvalidNodeId then (g, fl.value) else defaultConstant g ty
      if unusable g' v then (g', .refused)
      else if asSize idx < elems.length then
        fillSnapshot alloc mem ty rest g' (elems.set (asSize idx) v)
      else (g', .undefined)

/-- Unlisted element slots materialize to their type default. -/
def padElems (ty : RawType) : List NodeId → Store → Store × List NodeId
  | [], g => (g, [])
  | v :: rest, g =>
    let (g, v) := if v = kInvalidNodeId then defaultConstant g ty else (g, v)
    let (g, rest) := padElems ty rest g
    (g, v :: rest)

/-- The array state at the escape point `e`. -/
def snapshotElems (alloc : NodeId) (kind : NodeKind) (uses : List ClassifiedUse)
    (indices : List Int) (e mem : NodeId) (g : Store) : Store × Snapshot (List NodeId) :=
  let listed := snapElems g uses e indices
  let len := g.input alloc 1
  let ty := elemTyOf g alloc kind
  if g.nodeCount ≤ len ∨ (g.node len).isDead then (g, .refused)
  else
    let maxIdx := listed.foldl max (-1)
    let size := if 0 ≤ maxIdx then asSize maxIdx + 1 else 0
    match fillSnapshot alloc mem ty listed g (List.replicate size kInvalidNodeId) with
    | (g, .taken elems) =>
      let (g, elems) := padElems ty elems g
      (g, .taken elems)
    | r => r

/-- The array virtual object recorded for the escape point `e`. -/
def snapshotArray (alloc : NodeId) (kind : NodeKind) (uses : List ClassifiedUse)
    (indices : List Int) (e mem : NodeId) (g : Store) : Store × Snapshot NodeId :=
  let len := g.input alloc 1
  match snapshotElems alloc kind uses indices e mem g with
  | (g', .taken elems) =>
    let (g'', vobj) := makeArrayVirtualObject g' (elemTyOf g alloc kind) len elems
    (g'', .taken vobj)
  | (g', .undefined) => (g', .undefined)
  | (g', .refused) => (g', .refused)

end B2Compiler.Passes.Escape
