import Mathlib.Algebra.Order.Ring.Nat
import B2Compiler.Ir.Store
import B2Compiler.Lib.BinarySearch

/-!
# The region safety checks

A region names an interior part of a graph and its boundary.  Ten checks run in order, and
the first that fails decides the verdict; the last three pass always.  Two of them walk the
inputs of the memory nodes with a counter of eight bits, which comes back to zero after 255:
on a node with more inputs such a walk ends only where it finds the region unsafe.
-/

namespace B2Compiler.Pipeline

open Ir
open Lib.BinarySearch

/-- A region; the interior nodes are in ascending order. -/
structure Region where
  entryControl : NodeId := Ir.kInvalidNodeId
  exitControls : List NodeId := []
  entryValues : List NodeId := []
  exitValues : List NodeId := []
  entryMemory : NodeId := Ir.kInvalidNodeId
  exitMemory : NodeId := Ir.kInvalidNodeId
  exceptionExit : NodeId := Ir.kInvalidNodeId
  nodes : List NodeId := []
  sorted : nodes.Pairwise (· ≤ ·) := by decide

inductive RegionSafety where
  | safe | unsafeBoundary | unsafeDanglingUses | unsafeExceptionEdges | unsafeMemoryState
  | unsafeEffectOrdering | unsafePhi | unsafeSideEffectDup | unsafeGcRoots | unsafeDeoptState
  deriving DecidableEq, Repr

structure RegionSafetyResult where
  verdict : RegionSafety := .safe
  failedCheck : Nat := 0
  checkedNodeCount : Nat := 0
  deriving DecidableEq, Repr

/-- Is the id in a vector that is searched by halving? -/
def inRegion (nodes : List NodeId) (n : NodeId) : Bool := binarySearch nodes n

def isControlEntryKind : NodeKind → Bool
  | .start | .ifTrue | .ifFalse | .switchCase | .switchDefault | .loopBegin | .region => true
  | _ => false

def isTerminalControl : NodeKind → Bool
  | .returnNode | .unwind | .deopt => true
  | _ => false

def isCallKind : NodeKind → Bool
  | .callStatic | .callVirtual | .callInterface | .callDynamic => true
  | _ => false

/-- The role of an input slot, the trailing frame state taken for an appended input. -/
def slotRole (k : NodeKind) (slot : Nat) : InputRole :=
  match (info k).roles[slot]? with
  | some role => role
  | none => (info k).variadicRole.getD .none

def isMemoryStateKind (k : NodeKind) : Bool :=
  (info k).roles.any (fun role => role == .mem) || (info k).variadicRole == some .mem

/-- Out of range or a tombstone: the scans step over such a node. -/
def skipped (g : Store) (n : NodeId) : Bool := decide (g.nodeCount ≤ n) || (g.node n).isDead

/-! ## The checks that are simple loops -/

def check1_ControlEntry (g : Store) (r : Region) : Bool :=
  if r.entryControl = Ir.kInvalidNodeId then false
  else if g.nodeCount ≤ r.entryControl then false
  else if (g.node r.entryControl).isDead then false
  else if !isControlEntryKind (g.node r.entryControl).kind then false
  else inRegion r.nodes r.entryControl

/-- Check 2: every exit is a terminal, or a node inside whose control successors are
outside. -/
def check2_ControlExits (g : Store) (r : Region) : Bool :=
  if r.exitControls.isEmpty then false
  else r.exitControls.all fun exit =>
    if exit = Ir.kInvalidNodeId then false
    else if g.nodeCount ≤ exit then false
    else if (g.node exit).isDead then false
    else if isTerminalControl (g.node exit).kind then true
    else if !inRegion r.nodes exit then false
    else (g.usesOf exit).all fun u =>
      decide (g.nodeCount ≤ u.user) ||
        !(slotRole (g.node u.user).kind u.slot == .ctrl && inRegion r.nodes u.user)

/-- Check 3: what is used outside is an exit value. -/
def check3_DanglingUses (g : Store) (r : Region) : Bool :=
  r.nodes.all fun n => skipped g n || (g.usesOf n).all fun u =>
    decide (g.nodeCount ≤ u.user) || inRegion r.nodes u.user || inRegion r.exitValues n

/-- Check 4: the exceptional projection of every call is the exception exit or inside. -/
def check4_ExceptionEdges (g : Store) (r : Region) : Bool :=
  r.nodes.all fun n =>
    skipped g n || !isCallKind (g.node n).kind || (g.usesOf n).any fun u =>
      decide (u.user < g.nodeCount) && (g.node u.user).kind == .callExcept &&
        (u.user == r.exceptionExit || inRegion r.nodes u.user)

/-- Check 7: the inputs of a phi are inside or entry values. -/
def check7_PhiResolvable (g : Store) (r : Region) : Bool :=
  r.nodes.all fun n =>
    skipped g n || (g.node n).kind != .phi || (List.range (g.numInputs n)).all fun s =>
      decide (g.nodeCount ≤ g.input n s) || inRegion r.nodes (g.input n s) ||
        inRegion r.entryValues (g.input n s)

/-- Check 8 is a stub: there is no registry of regions. -/
def check8_SideEffectDup (_ : Store) (_ : Region) : Bool := true

/-- Check 9 is a stub: there are no maps of references. -/
def check9_GcRoots (_ : Store) (_ : Region) : Bool := true

/-- Check 10 is a stub: the code range of the method is not known. -/
def check10_DeoptState (_ : Store) (_ : Region) : Bool := true

/-! ## The checks that count inputs with eight bits -/

/-- The memory nodes the scans look at. -/
def memoryNodes (g : Store) (r : Region) : List NodeId :=
  r.nodes.filter fun n => !skipped g n && isMemoryStateKind (g.node n).kind

/-- The input at the slot is a memory state outside the region. -/
def externalMemory (g : Store) (r : Region) (n : NodeId) (slot : Nat) : Bool :=
  slotRole (g.node n).kind slot == .mem && decide (g.input n slot < g.nodeCount) &&
    !inRegion r.nodes (g.input n slot)

/-- How a walk over the inputs of one node ends: in the middle, with the answer that the
region is unsafe, or after the last input. -/
inductive Walk (α : Type) where
  | unsafeHere
  | walked (a : α)
  deriving DecidableEq, Repr

/-- The walk of check 5 from the slot `s` on; `ext` is the outside memory state seen so far.
`none` stands for a walk that has not ended within the fuel. -/
def walkExternal (g : Store) (r : Region) (n : NodeId) :
    Nat → BitVec 8 → NodeId → Option (Walk NodeId)
  | 0, _, _ => none
  | fuel + 1, s, ext =>
    if s.toNat < g.numInputs n then
      if externalMemory g r n s.toNat then
        let memPred := g.input n s.toNat
        if memPred ≠ r.entryMemory then some .unsafeHere
        else if ext ≠ Ir.kInvalidNodeId ∧ ext ≠ memPred then some .unsafeHere
        else walkExternal g r n fuel (s + 1) memPred
      else walkExternal g r n fuel (s + 1) ext
    else some (.walked ext)

def scanExternal (g : Store) (r : Region) (fuel : Nat) : List NodeId → NodeId → Option (Walk NodeId)
  | [], ext => some (.walked ext)
  | n :: ns, ext =>
    match walkExternal g r n fuel 0 ext with
    | none => none
    | some .unsafeHere => some .unsafeHere
    | some (.walked ext') => scanExternal g r fuel ns ext'

/-- The boundary that check 5 asks for before it scans. -/
def memoryBoundary (g : Store) (r : Region) : Bool :=
  r.entryMemory != Ir.kInvalidNodeId && decide (r.entryMemory < g.nodeCount) &&
    !inRegion r.nodes r.entryMemory && r.exitMemory != Ir.kInvalidNodeId &&
    decide (r.exitMemory < g.nodeCount) && !inRegion r.nodes r.exitMemory

/-- Check 5: one memory state outside, the entry, is read inside. -/
def check5_MemoryState (g : Store) (r : Region) (fuel : Nat) : Option Bool :=
  if (memoryNodes g r).isEmpty then some (r.entryMemory == r.exitMemory)
  else if !memoryBoundary g r then some false
  else match scanExternal g r fuel (memoryNodes g r) Ir.kInvalidNodeId with
    | none => none
    | some .unsafeHere => some false
    | some (.walked ext) => some (ext != Ir.kInvalidNodeId)

def walkMemoryInputs (g : Store) (n : NodeId) : Nat → BitVec 8 → BitVec 8 → Option (BitVec 8)
  | 0, _, _ => none
  | fuel + 1, s, memInputs =>
    if s.toNat < g.numInputs n then
      walkMemoryInputs g n fuel (s + 1)
        (if slotRole (g.node n).kind s.toNat == .mem then memInputs + 1 else memInputs)
    else some memInputs

/-- Check 6: no memory node has two memory inputs. -/
def scanMemoryInputs (g : Store) (fuel : Nat) : List NodeId → Option Bool
  | [] => some true
  | n :: ns =>
    match walkMemoryInputs g n fuel 0 0 with
    | none => none
    | some memInputs => if 1 < memInputs.toNat then some false else scanMemoryInputs g fuel ns

def check6_EffectOrdering (g : Store) (r : Region) (fuel : Nat) : Option Bool :=
  scanMemoryInputs g fuel (memoryNodes g r)

/-- The checks in order, each with its verdict. -/
def regionChecks (g : Store) (r : Region) (fuel : Nat) : List (RegionSafety × Option Bool) :=
  [(.unsafeBoundary, some (check1_ControlEntry g r)),
    (.unsafeBoundary, some (check2_ControlExits g r)),
    (.unsafeDanglingUses, some (check3_DanglingUses g r)),
    (.unsafeExceptionEdges, some (check4_ExceptionEdges g r)),
    (.unsafeMemoryState, check5_MemoryState g r fuel),
    (.unsafeEffectOrdering, check6_EffectOrdering g r fuel),
    (.unsafePhi, some (check7_PhiResolvable g r)),
    (.unsafeSideEffectDup, some (check8_SideEffectDup g r)),
    (.unsafeGcRoots, some (check9_GcRoots g r)),
    (.unsafeDeoptState, some (check10_DeoptState g r))]

/-- Stops at the first check that fails; `number` is that of the first check of the list. -/
def firstFailure (nodeCount : Nat) : List (RegionSafety × Option Bool) → Nat →
    Option RegionSafetyResult
  | [], _ => some ⟨.safe, 0, nodeCount⟩
  | (verdict, answer) :: rest, number =>
    match answer with
    | none => none
    | some false => some ⟨verdict, number, nodeCount⟩
    | some true => firstFailure nodeCount rest (number + 1)

/-- The number of nodes is reported in 32 bits.  `none` stands for a run that has not ended
within the fuel. -/
def checkRegionSafety (g : Store) (r : Region) (fuel : Nat) : Option RegionSafetyResult :=
  firstFailure (r.nodes.length % 2 ^ 32) (regionChecks g r fuel) 1

end B2Compiler.Pipeline
