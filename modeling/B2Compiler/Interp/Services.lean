import B2Compiler.Interp.Runtime

/-!
# The services of the runtime over their primitives

What the runtime offers to the handlers is put together from few primitives: interning a
class, resolving a field, allocating an object, writing the slots of one.  A relation between
runtimes that the primitives stay inside of holds over every service.
-/

namespace B2Compiler.Interp

open Rbc List

namespace Runtime

/-- A relation between runtimes that every primitive stays inside of. -/
structure Primitives (Q : Runtime → Runtime → Prop) : Prop where
  refl : ∀ rt, Q rt rt
  trans : ∀ {rt rt' rt''}, Q rt rt' → Q rt' rt'' → Q rt rt''
  classId : ∀ rt n, Q rt (rt.classId n).2
  resolveField : ∀ rt c, Q rt (rt.resolveField c).2
  markException : ∀ rt cid, Q rt (rt.markException cid)
  alloc : ∀ rt (o : HeapObj), o.mon = {} → Q rt { rt with heap := (rt.heap.alloc o).2 }
  setSlots : ∀ rt r o slots, rt.heap.obj r = some o →
    Q rt { rt with heap := rt.heap.setObj r { o with slots } }
  intern : ∀ rt entry, Q rt { rt with heap.interned := entry :: rt.heap.interned }
  objects : ∀ rt known, (∀ id, rt.classObjects.getD id 0 ≠ 0 →
    known.getD id 0 = rt.classObjects.getD id 0) → Q rt { rt with classObjects := known }
  print : ∀ rt out err, Q rt { rt with out, err }
  statics : ∀ rt values, Q rt { rt with statics := values }
  profiles : ∀ rt counters, Q rt { rt with profiles := counters }

namespace Primitives

variable {Q : Runtime → Runtime → Prop} (P : Primitives Q) {rt rt' : Runtime}
include P

/-! ## The heap -/

theorem loadField (rt : Runtime) (r slot : Nat) :
    Q rt { rt with heap := (rt.heap.loadField r slot).2 } := by
  unfold Heap.loadField
  split
  · rename_i o hobj
    split
    · exact P.setSlots rt r o _ hobj
    · exact P.refl rt
  · exact P.refl rt

theorem storeField {r slot : Nat} {v : Value} {heap : Heap}
    (h : rt.heap.storeField r slot v = some heap) : Q rt { rt with heap } := by
  unfold Heap.storeField at h
  split at h
  · rename_i o hobj
    split at h
    · cases h
      exact P.setSlots rt r o _ hobj
    · cases h
  · cases h

theorem storeElem {r i : Nat} {v : Value} {heap : Heap}
    (h : rt.heap.storeElem r i v = some heap) : Q rt { rt with heap } := by
  unfold Heap.storeElem at h
  split at h
  · rename_i o hobj
    split at h
    · cases h
      exact P.setSlots rt r o _ hobj
    · cases h
  · cases h

theorem newInstance (rt : Runtime) (cls : Nat) : Q rt (rt.newInstance cls).2 :=
  P.alloc rt _ rfl

theorem newArray (rt : Runtime) (atype length : Nat) : Q rt (rt.newArray atype length).2 :=
  P.trans (P.classId rt _) (P.alloc _ _ rfl)

theorem newRefArray (rt : Runtime) (cls length : Nat) : Q rt (rt.newRefArray cls length).2 :=
  P.trans (P.classId rt _) (P.alloc _ _ rfl)

theorem storeSub (rt : Runtime) (arr i sub : Nat) : Q rt (rt.storeSub arr i sub) := by
  unfold Runtime.storeSub
  cases hstore : rt.heap.storeElem arr i (.refVal sub) with
  | none => exact P.refl rt
  | some heap => exact P.storeElem hstore

theorem foldl {α : Type} {g : Runtime → α → Runtime} (hg : ∀ rt a, Q rt (g rt a)) (l : List α)
    (rt : Runtime) : Q rt (l.foldl g rt) := by
  induction l generalizing rt with
  | nil => exact P.refl rt
  | cons a l ih => exact P.trans (hg rt a) (ih _)

theorem buildMultiLevel (baseElem : RType) (dims : List (BitVec 32)) (depth : Nat) :
    ∀ (rt : Runtime) (name : String) (level : Nat),
      Q rt (rt.buildMultiLevel name baseElem dims level depth).2 := by
  induction depth with
  | zero => exact fun rt name level => P.trans (P.classId rt name) (P.alloc _ _ rfl)
  | succ depth ih =>
    cases depth with
    | zero => exact fun rt name level => P.trans (P.classId rt name) (P.alloc _ _ rfl)
    | succ depth =>
      intro rt name level
      refine P.trans (P.trans (P.classId rt name) (P.alloc _ _ rfl)) (P.foldl ?_ _ _)
      exact fun rt i => P.trans (ih rt (childArrayName name) (level + 1)) (P.storeSub _ _ _ _)

theorem newMultiArray (rt : Runtime) (cls : Nat) (dims : List (BitVec 32)) :
    Q rt (rt.newMultiArray cls dims).2 := by
  unfold Runtime.newMultiArray
  dsimp only
  split
  · exact P.trans (P.classId rt _) (P.alloc _ _ rfl)
  · exact P.buildMultiLevel _ _ _ _ _ _

theorem internString (rt : Runtime) (s : String) : Q rt (rt.internString s).2 := by
  unfold Runtime.internString Runtime.withHeap Heap.internString
  dsimp only
  split
  · exact P.refl rt
  · exact P.trans (P.alloc rt _ rfl) (P.intern _ _)

theorem makeException (rt : Runtime) (cls msg : String) : Q rt (rt.makeException cls msg).2 := by
  unfold Runtime.makeException
  dsimp only
  have hobj := P.trans (P.trans (P.classId rt cls) (P.markException _ (rt.classId cls).1))
    (P.newInstance _ (rt.classId cls).1)
  have hfield := P.trans hobj (P.resolveField _ detailMessage)
  split
  · rename_i rf rt₁ heq
    rw [heq] at hfield
    have htext := P.trans hfield (P.internString rt₁ msg)
    cases hstore : (rt₁.internString msg).2.heap.storeField
        (((rt.classId cls).2.markException (rt.classId cls).1).newInstance (rt.classId cls).1).1
        rf.slot (.refVal (rt₁.internString msg).1) with
    | none => exact htext
    | some heap => exact P.trans htext (P.storeField hstore)
  · rename_i heq
    rw [heq] at hfield
    exact hfield

theorem classObject (rt : Runtime) (id : Nat) : Q rt (rt.classObject id).2 := by
  have hgrow : ∀ j, (rt.classObjects ++
      replicate (id + 1 - rt.classObjects.length) 0).getD j 0 = rt.classObjects.getD j 0 := by
    intro j
    simp only [getD_eq_getElem?_getD, getElem?_append, getElem?_replicate]
    split
    · rfl
    · rename_i hlt
      rw [getElem?_eq_none (by omega : rt.classObjects.length ≤ j)]
      split <;> rfl
  unfold Runtime.classObject
  dsimp only
  split
  · exact P.objects rt _ fun j _ => hgrow j
  rename_i hzero
  refine P.trans (P.newInstance rt classClass) (P.objects _ _ ?_)
  intro j hj
  have hne : id ≠ j := by
    rintro rfl
    rw [hgrow] at hzero
    exact hzero hj
  rw [getD_eq_getElem?_getD, getElem?_set_ne hne, ← getD_eq_getElem?_getD]
  exact hgrow j

theorem execBuiltin {host : Host} {b : Builtin} {args : List Value}
    (h : rt.execBuiltin host b args = some rt') : Q rt rt' := by
  unfold Runtime.execBuiltin at h
  split at h
  · cases h
  dsimp only at h
  split at h
  · cases h
    split <;> exact P.print rt _ _
  · cases h
    split <;> exact P.print rt _ _
  · cases h

theorem bumpInvocations (rt : Runtime) (id : Nat) : Q rt (rt.bumpInvocations id) :=
  P.profiles rt _

theorem bumpBackedge (rt : Runtime) (id : Nat) : Q rt (rt.bumpBackedge id) := P.profiles rt _

theorem storeStatic (rt : Runtime) (f : Nat) (v : Value) : Q rt (rt.storeStatic f v) :=
  P.statics rt _

end Primitives

end Runtime

end B2Compiler.Interp
