import B2Compiler.Interp.StepCases

/-!
# How often a monitor is held

The count of a monitor, as the interpreter's one thread holds it, over the operations of the
heap and the services of the runtime.  Only `monitorenter` and `monitorexit` change it; a
class object, once made, stays the object of its class.
-/

namespace B2Compiler.Interp

open Rbc List

/-! ## The heap -/

namespace Heap

/-- How often the interpreter's thread holds the monitor of `r`. -/
def held (h : Heap) (r : Nat) : Nat :=
  match h.obj r with
  | some o => if o.mon.owner = kOwnerThread then o.mon.count else 0
  | none => 0

variable {h h' : Heap} {r : Nat} {o : HeapObj}

theorem obj_setObj (hobj : h.obj r = some o) (o' : HeapObj) (q : Nat) :
    (h.setObj r o').obj q = if q = r then some o' else h.obj q := by
  unfold obj setObj at *
  by_cases hr : r = 0
  · rw [if_pos hr] at hobj
    cases hobj
  rw [if_neg hr] at hobj
  by_cases hq : q = 0
  · have hne : ¬ q = r := by omega
    rw [if_pos hq, if_neg hne, if_pos hq]
  rw [if_neg hq, if_neg hq, getElem?_set]
  have hlt : r - 1 < h.objs.length := by
    rw [getElem?_eq_some_iff] at hobj
    exact hobj.1
  by_cases hqr : q = r
  · subst hqr
    simp [hlt]
  · have hne : ¬ r - 1 = q - 1 := by omega
    rw [if_neg hne, if_neg hqr]

theorem held_setObj (hobj : h.obj r = some o) (o' : HeapObj) (q : Nat) : (h.setObj r o').held q =
      if q = r then (if o'.mon.owner = kOwnerThread then o'.mon.count else 0)
      else h.held q := by
  unfold held
  rw [obj_setObj hobj]
  by_cases hq : q = r
  · rw [if_pos hq, if_pos hq]
  · rw [if_neg hq, if_neg hq]

/-- Writing the slots of an object changes no count. -/
theorem held_setSlots (hobj : h.obj r = some o) (slots : List Value) (q : Nat) :
    (h.setObj r { o with slots }).held q = h.held q := by
  rw [held_setObj hobj]
  by_cases hq : q = r
  · rw [if_pos hq, hq]
    unfold held
    rw [hobj]
  · rw [if_neg hq]

theorem held_alloc (hmon : o.mon = {}) (q : Nat) : (h.alloc o).2.held q = h.held q := by
  unfold held alloc obj
  dsimp only
  by_cases hq : q = 0
  · rw [if_pos hq, if_pos hq]
  rw [if_neg hq, if_neg hq]
  rcases Nat.lt_trichotomy (q - 1) h.objs.length with hlt | heq | hgt
  · rw [getElem?_append_left hlt]
  · rw [heq, getElem?_concat_length, getElem?_eq_none (Nat.le_refl _)]
    dsimp only
    rw [hmon]
    rfl
  · rw [getElem?_eq_none (by simp; omega), getElem?_eq_none (by omega)]

/-- Entering adds one to the count of its object and to no other. -/
theorem held_monitorenter (henter : h.monitorenter r = (.none, h')) (q : Nat) :
    h'.held q = if q = r then h.held q + 1 else h.held q := by
  unfold monitorenter at henter
  split at henter
  · cases henter
  rename_i o hobj
  have hcount : h.held r = if o.mon.owner = kOwnerThread then o.mon.count else 0 := by
    unfold held
    rw [hobj]
  split at henter
  · rename_i hfree
    cases henter
    rw [held_setObj hobj, if_pos rfl]
    split
    · rename_i hq
      rw [hq, hcount, hfree]
      rfl
    · rfl
  · split at henter
    · rename_i howner
      cases henter
      rw [held_setObj hobj, if_pos howner]
      split
      · rename_i hq
        rw [hq, hcount, if_pos howner]
      · rfl
    · cases henter

/-- Leaving takes one from the count of its object and from no other. -/
theorem held_monitorexit (hexit : h.monitorexit r = (.none, h')) (q : Nat) :
    h'.held q + (if q = r then 1 else 0) = h.held q := by
  unfold monitorexit at hexit
  split at hexit
  · cases hexit
  rename_i o hobj
  split at hexit
  · cases hexit
  rename_i hown
  cases hexit
  have howner : o.mon.owner = kOwnerThread := by
    by_contra hne
    exact hown (.inl hne)
  have hpos : o.mon.count ≠ 0 := fun hzero => hown (.inr hzero)
  have hcount : h.held r = o.mon.count := by
    unfold held
    rw [hobj]
    dsimp only
    rw [if_pos howner]
  rw [held_setObj hobj]
  dsimp only
  by_cases hq : q = r
  · rw [if_pos hq, if_pos hq, hq, hcount]
    by_cases hlast : o.mon.count - 1 = 0
    · rw [if_pos hlast, if_neg (by decide)]
      omega
    · rw [if_neg hlast, if_pos howner]
      omega
  · rw [if_neg hq, if_neg hq, Nat.add_zero]

theorem monitorexit_of_held (hheld : 0 < h.held r) : ∃ h', h.monitorexit r = (.none, h') := by
  unfold held at hheld
  unfold monitorexit
  split at hheld
  · rename_i o hobj
    rw [hobj]
    dsimp only
    split at hheld
    · rename_i howner
      rw [if_neg (by rintro (hne | hzero); exact hne howner; omega)]
      exact ⟨_, rfl⟩
    · omega
  · omega

/-- Leaving takes one from the count of its object, if it is held at all. -/
theorem held_exit (h : Heap) (r q : Nat) :
    (h.monitorexit r).2.held q = h.held q - (if q = r then 1 else 0) := by
  by_cases hdone : (h.monitorexit r).1 = .none
  · have hleft : (h.monitorexit r).2.held q + (if q = r then 1 else 0) = h.held q :=
      held_monitorexit (Prod.ext hdone rfl) q
    omega
  rw [monitorexit_fail h r hdone]
  split
  · rename_i hq
    by_contra hne
    obtain ⟨h', hexit⟩ := monitorexit_of_held (h := h) (r := r) (by rw [← hq]; omega)
    rw [hexit] at hdone
    exact hdone rfl
  · rfl

/-- Releasing a record takes its entries from the counts, as far as they are there. -/
theorem held_release_sub (q : Nat) (monitors : List Nat) :
    ∀ h : Heap, (monitors.foldl (fun h r => (h.monitorexit r).2) h).held q =
      h.held q - monitors.count q := by
  induction monitors with
  | nil => exact fun h => (Nat.sub_zero _).symm
  | cons r rest ih =>
    intro h
    rw [foldl_cons, ih, held_exit, count_cons]
    by_cases hr : q = r
    · subst hr
      rw [if_pos rfl, if_pos (beq_self_eq_true q)]
      omega
    · rw [if_neg hr, if_neg (by simpa using Ne.symm hr)]
      omega

theorem held_release (q : Nat) (monitors : List Nat) (h : Heap) (n : Nat)
    (hcount : h.held q = n + monitors.count q) :
    (monitors.foldl (fun h r => (h.monitorexit r).2) h).held q = n := by
  rw [held_release_sub]
  omega

end Heap

/-! ## The services -/

namespace Runtime

def classObjectOf (rt : Runtime) (name : String) : Option Nat :=
  match rt.lookupClass name with
  | some cls => if rt.classObjects.getD cls 0 = 0 then none else some (rt.classObjects.getD cls 0)
  | none => none

/-- No monitor changed, and the class objects are still those of their classes. -/
structure Quiet (rt rt' : Runtime) : Prop where
  held : ∀ r, rt'.heap.held r = rt.heap.held r
  classObjects : ∀ id, rt.classObjects.getD id 0 ≠ 0 →
    rt'.classObjects.getD id 0 = rt.classObjects.getD id 0

namespace Quiet

variable {rt rt' rt'' : Runtime}

theorem of_eq (hheap : rt'.heap = rt.heap) (hobjects : rt'.classObjects = rt.classObjects) :
    rt.Quiet rt' :=
  ⟨fun r => by rw [hheap], fun id _ => by rw [hobjects]⟩

theorem refl (rt : Runtime) : rt.Quiet rt := of_eq rfl rfl

theorem trans (h : rt.Quiet rt') (h' : rt'.Quiet rt'') : rt.Quiet rt'' where
  held r := (h'.held r).trans (h.held r)
  classObjects id hid := by
    have hid' := h.classObjects id hid
    rw [h'.classObjects id (by rw [hid']; exact hid), hid']

theorem classObjectOf {name : String} {obj : Nat} (h : rt.Quiet rt') (hk : rt.Keeps rt')
    (hreg : rt.Registered) (hobj : rt.classObjectOf name = some obj) :
    rt'.classObjectOf name = some obj := by
  unfold Runtime.classObjectOf at hobj ⊢
  split at hobj
  · rename_i cls hcls
    split at hobj
    · cases hobj
    rename_i hmade
    obtain ⟨ci, hci, hname⟩ := (hreg name cls).mp hcls
    obtain ⟨ci', hci', hname', _⟩ := hk.old cls ci hci
    have hcls' : rt'.lookupClass name = some cls :=
      (hk.registered hreg name cls).mpr ⟨ci', hci', hname'.trans hname⟩
    rw [hcls']
    dsimp only
    rw [h.classObjects cls hmade, if_neg hmade]
    exact hobj
  · cases hobj

end Quiet

theorem quiet_markException (rt : Runtime) (cid : Nat) : rt.Quiet (rt.markException cid) := by
  unfold markException
  split
  · exact .of_eq rfl rfl
  · exact .refl rt

theorem quiet_classId (rt : Runtime) (n : String) : rt.Quiet (rt.classId n).2 := by
  unfold classId
  split
  · exact .refl rt
  · exact .of_eq rfl rfl

theorem quiet_resolveField (rt : Runtime) (c : Const) : rt.Quiet (rt.resolveField c).2 := by
  unfold resolveField
  split
  · exact .refl rt
  · dsimp only
    split
    · exact quiet_classId rt c.str
    · exact (quiet_classId rt c.str).trans (.of_eq rfl rfl)

theorem quiet_primitives : Primitives Quiet where
  refl := .refl
  trans := .trans
  classId := quiet_classId
  resolveField := quiet_resolveField
  markException := quiet_markException
  alloc _ _ hmon := ⟨fun q => Heap.held_alloc hmon q, fun _ _ => rfl⟩
  setSlots _ _ _ slots hobj := ⟨fun q => Heap.held_setSlots hobj slots q, fun _ _ => rfl⟩
  intern _ _ := ⟨fun _ => rfl, fun _ _ => rfl⟩
  objects _ _ hknown := ⟨fun _ => rfl, hknown⟩
  print _ _ _ := .of_eq rfl rfl
  statics _ _ := .of_eq rfl rfl
  profiles _ _ := .of_eq rfl rfl

end Runtime

end B2Compiler.Interp
