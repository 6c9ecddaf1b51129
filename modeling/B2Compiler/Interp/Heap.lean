import B2Compiler.Interp.Value

/-!
# The tier-0 object heap

Objects live in one growing vector; a reference is the one-based position of its
object and `0` is no object.  Nothing is ever freed.  An instance grows its slots
on first touch of a field resolved after its allocation, so a load can change the
heap.  Monitors are reentrant and known to one thread only.
-/

namespace B2Compiler.Interp

open Rbc

/-! ## Objects -/

/-- Owner (`0` is free) and reentrancy depth of a monitor. -/
structure MonitorState where
  owner : Nat := 0
  count : Nat := 0
  deriving DecidableEq, Repr, Inhabited

inductive ObjKind where
  | inst | array
  deriving DecidableEq, Repr, Inhabited

/-- One heap object.  `str` is the payload of a string, `elem` and `length` are
those of an array, `slots` holds fields or elements. -/
structure HeapObj where
  kind : ObjKind := .inst
  cls : Nat := 0
  str : String := ""
  slots : List Value := []
  elem : RType := .bottom
  length : Nat := 0
  mon : MonitorState := {}
  deriving DecidableEq, Repr, Inhabited

/-- Failure of a monitor operation. -/
inductive MonFail where
  | none | null | notOwner
  deriving DecidableEq, Repr, Inhabited

/-- The object vector and the table of interned strings. -/
structure Heap where
  objs : List HeapObj := []
  interned : List (String × Nat) := []
  deriving DecidableEq, Repr, Inhabited

/-- The one thread that can own a monitor. -/
def kOwnerThread : Nat := 1

/-- Grow a vector with `bottom` up to `n` entries. -/
def growTo (slots : List Value) (n : Nat) : List Value :=
  slots ++ List.replicate (n - slots.length) .bottom

def zeroOf : RType → Value
  | .int => .intVal 0
  | .long => .longVal 0
  | .float => .floatVal 0
  | .double => .doubleVal 0
  | .ref | .null => .nullVal
  | .bottom => .bottom

namespace Heap

/-- The object behind a reference, if it is alive. -/
def obj (h : Heap) (r : Nat) : Option HeapObj :=
  if r = 0 then none else h.objs[r - 1]?

/-- Overwrite the object behind a live reference. -/
def setObj (h : Heap) (r : Nat) (o : HeapObj) : Heap :=
  { h with objs := h.objs.set (r - 1) o }

/-- Append an object; its reference is the new size. -/
def alloc (h : Heap) (o : HeapObj) : Nat × Heap :=
  (h.objs.length + 1, { h with objs := h.objs ++ [o] })

def allocInstance (h : Heap) (cls slotHint : Nat) : Nat × Heap :=
  h.alloc { kind := .inst, cls, slots := List.replicate slotHint .bottom }

def allocArray (h : Heap) (arrayCls : Nat) (elem : RType) (length : Nat) : Nat × Heap :=
  h.alloc { kind := .array, cls := arrayCls, elem, length,
            slots := List.replicate length (zeroOf elem) }

def allocString (h : Heap) (utf8 : String) (stringCls : Nat) : Nat × Heap :=
  h.alloc { kind := .inst, cls := stringCls, str := utf8 }

/-! ## Queries -/

def isInstance (h : Heap) (r : Nat) : Bool :=
  match h.obj r with
  | some o => o.kind = .inst
  | none => false

def isArray (h : Heap) (r : Nat) : Bool :=
  match h.obj r with
  | some o => o.kind = .array
  | none => false

/-- The string class is read off an interned entry: all of them share it. -/
def isString (h : Heap) (r : Nat) : Bool :=
  match h.obj r, h.interned with
  | some o, (_, anchor) :: _ =>
    if o.kind = .inst then
      match h.obj anchor with
      | some a => a.cls = o.cls
      | none => false
    else false
  | _, _ => false

/-- Class of an object; a dead reference answers the first class. -/
def classOf (h : Heap) (r : Nat) : Nat :=
  match h.obj r with
  | some o => o.cls
  | none => 0

def arrayLength (h : Heap) (r : Nat) : Nat :=
  match h.obj r with
  | some o => if o.kind = .array then o.length else 0
  | none => 0

def stringOf (h : Heap) (r : Nat) : String :=
  if h.isString r then ((h.obj r).map HeapObj.str).getD "" else ""

def objectCount (h : Heap) : Nat := h.objs.length

/-- Read a field.  A slot past the object's layout grows the object. -/
def loadField (h : Heap) (r slot : Nat) : Value × Heap :=
  match h.obj r with
  | some o =>
    if o.kind = .inst then
      let slots := growTo o.slots (slot + 1)
      (slots.getD slot .bottom, h.setObj r { o with slots })
    else (.bottom, h)
  | none => (.bottom, h)

/-- Write a field; `none` on a dead reference or an array. -/
def storeField (h : Heap) (r slot : Nat) (v : Value) : Option Heap :=
  match h.obj r with
  | some o =>
    if o.kind = .inst then
      some (h.setObj r { o with slots := (growTo o.slots (slot + 1)).set slot v })
    else none
  | none => none

/-- Read an element; outside the array the answer is `bottom`. -/
def loadElem (h : Heap) (r index : Nat) : Value :=
  match h.obj r with
  | some o => if o.kind = .array then o.slots.getD index .bottom else .bottom
  | none => .bottom

/-- Write an element; `none` on a non-array and outside the array. -/
def storeElem (h : Heap) (r index : Nat) (v : Value) : Option Heap :=
  match h.obj r with
  | some o =>
    if o.kind = .array ∧ index < o.slots.length then
      some (h.setObj r { o with slots := o.slots.set index v })
    else none
  | none => none

def monitorenter (h : Heap) (r : Nat) : MonFail × Heap :=
  match h.obj r with
  | none => (.null, h)
  | some o =>
    if o.mon.owner = 0 then (.none, h.setObj r { o with mon := ⟨kOwnerThread, 1⟩ })
    else if o.mon.owner = kOwnerThread then
      (.none, h.setObj r { o with mon := ⟨o.mon.owner, o.mon.count + 1⟩ })
    else (.notOwner, h)

def monitorexit (h : Heap) (r : Nat) : MonFail × Heap :=
  match h.obj r with
  | none => (.null, h)
  | some o =>
    if o.mon.owner ≠ kOwnerThread ∨ o.mon.count = 0 then (.notOwner, h)
    else
      let count := o.mon.count - 1
      let owner := if count = 0 then 0 else o.mon.owner
      (.none, h.setObj r { o with mon := ⟨owner, count⟩ })

/-- Equal string constants are one object. -/
def internString (h : Heap) (utf8 : String) (stringCls : Nat) : Nat × Heap :=
  match h.interned.lookup utf8 with
  | some r => (r, h)
  | none =>
    let (r, h) := h.allocString utf8 stringCls
    (r, { h with interned := (utf8, r) :: h.interned })

end Heap

end B2Compiler.Interp
