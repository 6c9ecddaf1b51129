import B2Compiler.Interp.RuntimeInvariant
import B2Compiler.Interp.Synchronized

/-!
# Where an exception lands

Throwing transfers control to the first handler, in table order, that covers the pc and
catches the class of the exception, in the innermost frame that has one.  The search interns
the catch types it meets, so the registry grows under it; superclasses precede their
subclasses, and that is why no answer changes on the way.
-/

namespace B2Compiler.Interp

open Rbc List Runtime

/-! ## The law -/

def catches (rt : Runtime) (meth : Method) (exc : Nat) (h : ExceptionHandler) : Bool :=
  let (cls, rt') := rt.classId (meth.cp.getD h.catchType.toNat {}).str
  h.catchType < 0 || rt'.isAssignableFrom cls (rt.heap.classOf exc)

/-- Does a handler cover the pc and take the exception? -/
def handles (rt : Runtime) (meth : Method) (pc exc : Nat) (h : ExceptionHandler) : Bool :=
  decide (h.start ≤ pc ∧ pc < h.stop) && catches rt meth exc h

/-- The first handler of a frame, in table order, for an exception at the frame's pc. -/
def handlerOf (p : Program) (rt : Runtime) (exc : Nat) (f : Frame) : Option ExceptionHandler :=
  (method p f.method).handlers.find? (handles rt (method p f.method) f.pc exc)

/-- Give the records of frames back, the innermost frame's first and each most recent first. -/
def releaseAll (h : Heap) (frames : List Frame) : Heap := frames.foldl releaseMonitorsLIFO h

/-- What throwing `exc` from `m` is to do. -/
inductive Dispatched (E : Env) (m : Machine) (exc : Nat) : Flow → Prop where
  /-- The innermost frame with a handler goes on there; the frames above it are gone. -/
  | caught {inner outer : List Frame} {f g : Frame} {h : ExceptionHandler} {m' : Machine}
      (hframes : m.frames = inner ++ f :: outer)
      (hinner : ∀ g ∈ inner, handlerOf E.program m.rt exc g = none)
      (hfirst : handlerOf E.program m.rt exc f = some h)
      (hframes' : m'.frames = g :: outer)
      (hpc : g.pc = h.handler) (hmethod : g.method = f.method) (hlocals : g.locals = f.locals)
      (hmonitors : g.monitors = f.monitors)
      (hregs : g.regs = (replicate (method E.program f.method).numRegs .bottom).set 0 (.refVal exc))
      (hheap : m'.rt.heap = releaseAll m.rt.heap inner)
      (hheld : ∀ r, m'.rt.heap.held r = m.rt.heap.held r - entries r inner) :
      Dispatched E m exc (.running m')
  /-- No frame has a handler: the run ends with the exception. -/
  | uncaught {m' : Machine} (hall : ∀ g ∈ m.frames, handlerOf E.program m.rt exc g = none)
      (hexc : m'.exception = exc) (hframes' : m'.frames = [])
      (hheap : m'.rt.heap = releaseAll m.rt.heap m.frames)
      (hheld : ∀ r, m'.rt.heap.held r = m.rt.heap.held r - entries r m.frames) :
      Dispatched E m exc (.ended .threw m')

namespace Runtime

/-- The classes form a hierarchy: names are registered once, superclasses come first. -/
structure Hierarchy (rt : Runtime) : Prop where
  registered : rt.Registered
  ordered : ∀ (c : Nat) (ci : ClassInfo), rt.classes[c]? = some ci → ci.superclass ≤ c

section Climbing

variable {rt rt' : Runtime}

theorem superclass_le (h : rt.Hierarchy) {c : Nat} (hc : c < rt.classes.length) :
    (rt.classInfo c).superclass ≤ c := by
  unfold classInfo
  rw [getD_eq_getElem?_getD, getElem?_eq_getElem hc]
  exact h.ordered c _ (getElem?_eq_getElem hc)

theorem climbsTo_above (h : rt.Hierarchy) {target : Nat} (guard : Nat) :
    ∀ cur, cur < rt.classes.length → cur < target → rt.climbsTo target guard cur = false := by
  induction guard with
  | zero => exact fun _ _ _ => rfl
  | succ guard ih =>
    intro cur hcur habove
    have hle := superclass_le h hcur
    rw [climbsTo, if_neg (by omega)]
    dsimp only
    split
    · rfl
    · exact ih _ (by omega) (by omega)

section

variable (h : rt.Hierarchy) (hlen : rt.classes.length ≤ rt'.classes.length)
  (hinfo : ∀ c < rt.classes.length, rt'.classInfo c = rt.classInfo c)
include h hlen hinfo

/-- A climb depends on the classes up to its start only, and its guard does not end it. -/
theorem climbsTo_grown {target : Nat}
    (guard : Nat) : ∀ guard' cur, cur < rt.classes.length → cur < guard → cur < guard' →
      rt'.climbsTo target guard' cur = rt.climbsTo target guard cur := by
  induction guard with
  | zero => exact fun _ cur _ hguard _ => absurd hguard (by omega)
  | succ guard ih =>
    intro guard' cur hcur hguard hguard'
    obtain ⟨n, rfl⟩ : ∃ n, guard' = n + 1 := ⟨guard' - 1, by omega⟩
    have hle := superclass_le h hcur
    rw [climbsTo, climbsTo, hinfo cur hcur]
    by_cases hfound : cur = target
    · rw [if_pos hfound, if_pos hfound]
    rw [if_neg hfound, if_neg hfound]
    dsimp only
    by_cases htop : (rt.classInfo cur).superclass = cur
    · rw [if_pos (Or.inl htop), if_pos (Or.inl htop)]
    · rw [if_neg (by omega), if_neg (by omega)]
      exact ih n _ (by omega) (by omega) (by omega)

theorem isAssignableFrom_grown {target value : Nat}
    (htarget : target < rt.classes.length) (hvalue : value < rt.classes.length) :
    rt'.isAssignableFrom target value = rt.isAssignableFrom target value := by
  have hin : ¬ (rt.classes.length ≤ target ∨ rt.classes.length ≤ value) := by omega
  have hin' : ¬ (rt'.classes.length ≤ target ∨ rt'.classes.length ≤ value) := by omega
  unfold isAssignableFrom
  rw [if_neg hin, if_neg hin', hinfo target htarget, hinfo value hvalue,
    climbsTo_grown h hlen hinfo (rt.classes.length + 1) _ value hvalue (by omega) (by omega)]

end

/-- A class is assignable from nothing below it: what was there before it is not its subclass. -/
theorem isAssignableFrom_last (h : rt.Hierarchy) {target value : Nat}
    (hlast : value < target) (hvalue : value < rt.classes.length) :
    rt.isAssignableFrom target value = false := by
  unfold isAssignableFrom
  split
  · rfl
  · split
    · exact decide_eq_false (by omega)
    · exact climbsTo_above h _ value hvalue hlast

end Climbing

/-! ## Interning -/

theorem hierarchy_classId {rt : Runtime} (h : rt.Hierarchy) (n : String) :
    (rt.classId n).2.Hierarchy := by
  refine ⟨(keeps_classId rt n).registered h.registered, ?_⟩
  unfold classId
  split
  · exact h.ordered
  intro c ci hc
  have hc' : (rt.classes ++ [({ name := n } : ClassInfo)])[c]? = some ci := hc
  rw [getElem?_append_one] at hc'
  split at hc'
  · cases hc'
    exact Nat.zero_le c
  · exact h.ordered c ci hc'

theorem ordered_set {rt : Runtime} (h : rt.Hierarchy) {id : Nat} {ci : ClassInfo}
    (hsuper : ci.superclass = (rt.classInfo id).superclass) (c : Nat) (ci' : ClassInfo)
    (hc : (rt.classes.set id ci)[c]? = some ci') : ci'.superclass ≤ c := by
  have hlt := (List.getElem?_eq_some_iff.mp hc).1
  rw [length_set] at hlt
  by_cases hid : id = c
  · subst hid
    rw [getElem?_set_self hlt] at hc
    cases hc
    rw [hsuper]
    exact superclass_le h hlt
  · rw [getElem?_set_ne hid] at hc
    exact h.ordered c ci' hc

theorem hierarchy_resolveField {rt : Runtime} (h : rt.Hierarchy) (c : Const) :
    (rt.resolveField c).2.Hierarchy := by
  refine ⟨(keeps_resolveField rt c).registered h.registered, ?_⟩
  have hclass := hierarchy_classId h c.str
  unfold resolveField
  split
  · exact h.ordered
  · dsimp only
    split
    · exact hclass.ordered
    · exact ordered_set hclass rfl

theorem hierarchy_markException {rt : Runtime} (h : rt.Hierarchy) (cid : Nat) :
    (rt.markException cid).Hierarchy := by
  refine ⟨(keeps_markException rt cid).registered h.registered, ?_⟩
  unfold markException
  split
  · exact ordered_set h rfl
  · exact h.ordered

theorem hierarchy_markInitialized {rt : Runtime} (h : rt.Hierarchy) (id : Nat) :
    (rt.markInitialized id).Hierarchy := by
  refine ⟨?_, ordered_set h rfl⟩
  by_cases hid : id < rt.classes.length
  · exact (markInitialized_spec h.registered (getElem?_eq_getElem hid) rfl).1
  · have hsame : rt.markInitialized id = rt := by
      unfold markInitialized setClass
      rw [set_eq_of_length_le (by omega)]
    rw [hsame]
    exact h.registered

theorem hierarchy_of_eq {rt rt' : Runtime} (h : rt.Hierarchy) (hclasses : rt'.classes = rt.classes)
    (htable : rt'.classByName = rt.classByName) : rt'.Hierarchy :=
  ⟨(Keeps.of_eq hclasses htable).registered h.registered, by rw [hclasses]; exact h.ordered⟩

theorem hierarchy_invariant : Invariant Hierarchy where
  services :=
    { refl := fun _ h => h
      trans := fun h h' hrt => h' (h hrt)
      classId := fun _ n h => hierarchy_classId h n
      resolveField := fun _ c h => hierarchy_resolveField h c
      markException := fun _ cid h => hierarchy_markException h cid
      alloc := fun _ _ _ h => hierarchy_of_eq h rfl rfl
      setSlots := fun _ _ _ _ _ h => hierarchy_of_eq h rfl rfl
      intern := fun _ _ h => hierarchy_of_eq h rfl rfl
      objects := fun _ _ _ h => hierarchy_of_eq h rfl rfl
      print := fun _ _ _ h => hierarchy_of_eq h rfl rfl
      statics := fun _ _ h => hierarchy_of_eq h rfl rfl
      profiles := fun _ _ h => hierarchy_of_eq h rfl rfl }
  mark h := hierarchy_markInitialized h _
  monitor _ _ h := hierarchy_of_eq h rfl rfl

/-- The builtin classes list their superclasses first. -/
theorem hierarchy_init (p : Program) : (init p).Hierarchy := by
  refine ⟨(init_spec p "").1, ?_⟩
  intro c ci hc
  have hc' : (registerBuiltinClasses {}).classes[c]? = some ci := hc
  have hall : ∀ i < (registerBuiltinClasses {}).classes.length,
      ((registerBuiltinClasses {}).classes.getD i {}).superclass ≤ i := by decide
  have hlt := (List.getElem?_eq_some_iff.mp hc').1
  have hle := hall c hlt
  rw [getD_eq_getElem?_getD, hc'] at hle
  exact hle

end Runtime

/-! ## The search -/

section Search

variable {rt rt' : Runtime} {exc : Nat}

theorem instance_fresh (h : rt.Hierarchy) {name : String} (hfresh : rt.lookupClass name = none)
    {value : Nat} (hvalue : value < rt.classes.length) :
    (rt.classId name).2.isAssignableFrom (rt.classId name).1 value = false := by
  have hnew : rt.classId name = rt.addClass { name } := by
    unfold classId
    rw [hfresh]
  have hgrown := hierarchy_classId h name
  rw [hnew] at hgrown ⊢
  apply isAssignableFrom_last hgrown
  · exact hvalue
  · show value < (rt.classes ++ [_]).length
    rw [length_append]
    omega

/-- Interning a name between does not change what an object is an instance of. -/
theorem instance_classId (h : rt.Hierarchy) (n name : String) {value : Nat}
    (hvalue : value < rt.classes.length) :
    ((rt.classId n).2.classId name).2.isAssignableFrom ((rt.classId n).2.classId name).1 value =
      (rt.classId name).2.isAssignableFrom (rt.classId name).1 value := by
  cases hn : rt.lookupClass n with
  | some c =>
    have hknown : rt.classId n = (c, rt) := by
      unfold classId
      rw [hn]
    rw [hknown]
  | none =>
    have hnew : rt.classId n = rt.addClass { name := n } := by
      unfold classId
      rw [hn]
    have hgrown := hierarchy_classId h n
    rw [hnew] at hgrown ⊢
    have hlookup : (rt.addClass { name := n }).2.lookupClass name =
        if name = n then some rt.classes.length else rt.lookupClass name := by
      have hcons := @Runtime.lookupClass_cons rt name n (2 * rt.classes.length)
      rw [show (rt.addClass { name := n }).2.lookupClass name = ({ rt with
          classByName := (n, 2 * rt.classes.length) :: rt.classByName } :
            Runtime).lookupClass name from rfl, hcons]
      simp [isFieldRegistryEntry]
    have hvalue' : value < (rt.addClass { name := n }).2.classes.length := by
      show value < (rt.classes ++ [_]).length
      rw [length_append]
      omega
    by_cases hname : name = n
    · subst hname
      rw [if_pos rfl] at hlookup
      rw [hnew]
      have hsame : (rt.addClass { name }).2.classId name =
          (rt.classes.length, (rt.addClass { name }).2) := by
        unfold classId
        rw [hlookup]
      rw [hsame]
      rfl
    · rw [if_neg hname] at hlookup
      cases hknown : rt.lookupClass name with
      | none =>
        rw [hknown] at hlookup
        rw [instance_fresh hgrown hlookup hvalue', instance_fresh h hknown hvalue]
      | some t =>
        rw [hknown] at hlookup
        have hat : rt.classId name = (t, rt) := by
          unfold classId
          rw [hknown]
        have hat' : (rt.addClass { name := n }).2.classId name =
            (t, (rt.addClass { name := n }).2) := by
          unfold classId
          rw [hlookup]
        obtain ⟨ci, hci, _⟩ := (h.registered name t).mp hknown
        have ht := (List.getElem?_eq_some_iff.mp hci).1
        rw [hat, hat']
        apply isAssignableFrom_grown h _ _ ht hvalue
        · show rt.classes.length ≤ (rt.classes ++ [_]).length
          rw [length_append]
          omega
        · intro c hc
          show (rt.classes ++ [_]).getD c {} = rt.classes.getD c {}
          rw [getD_eq_getElem?_getD, getD_eq_getElem?_getD, getElem?_append_left hc]

structure SameAnswers (exc : Nat) (rt rt' : Runtime) : Prop where
  hierarchy : rt'.Hierarchy
  registered : rt'.heap.classOf exc < rt'.classes.length
  catches : ∀ meth h, catches rt' meth exc h = catches rt meth exc h

theorem SameAnswers.handles (h : SameAnswers exc rt rt') (meth : Method) (pc : Nat) :
    handles rt' meth pc exc = handles rt meth pc exc := by
  funext hd
  rw [Interp.handles, Interp.handles, h.catches]

theorem SameAnswers.trans {rt'' : Runtime} (h : SameAnswers exc rt rt')
    (h' : SameAnswers exc rt' rt'') : SameAnswers exc rt rt'' :=
  ⟨h'.hierarchy, h'.registered, fun meth hd => (h'.catches meth hd).trans (h.catches meth hd)⟩

theorem heap_classId (rt : Runtime) (n : String) : (rt.classId n).2.heap = rt.heap := by
  unfold classId
  split <;> rfl

theorem sameAnswers_classId (h : rt.Hierarchy) (hexc : rt.heap.classOf exc < rt.classes.length)
    (n : String) : SameAnswers exc rt (rt.classId n).2 := by
  refine ⟨hierarchy_classId h n, ?_, ?_⟩
  · obtain ⟨_, hci, _⟩ := (keeps_classId rt n).old _ _ (getElem?_eq_getElem hexc)
    rw [heap_classId]
    exact (List.getElem?_eq_some_iff.mp hci).1
  · intro meth hd
    unfold catches
    dsimp only
    rw [heap_classId, instance_classId h n _ hexc]

theorem isAssignableFrom_congr (hclasses : rt'.classes = rt.classes) (target value : Nat) :
    rt'.isAssignableFrom target value = rt.isAssignableFrom target value := by
  have hclimb : ∀ guard cur, rt'.climbsTo target guard cur = rt.climbsTo target guard cur := by
    intro guard
    induction guard with
    | zero => exact fun _ => rfl
    | succ guard ih =>
      intro cur
      rw [climbsTo, climbsTo, classInfo, classInfo, hclasses]
      dsimp only
      rw [ih]
  unfold isAssignableFrom classInfo
  rw [hclasses, hclimb]

theorem sameAnswers_heap (h : rt.Hierarchy) (hexc : rt.heap.classOf exc < rt.classes.length)
    {heap : Heap} (hclass : heap.classOf exc = rt.heap.classOf exc) :
    SameAnswers exc rt { rt with heap } := by
  refine ⟨hierarchy_of_eq h rfl rfl, by rw [hclass]; exact hexc, ?_⟩
  intro meth hd
  unfold catches
  dsimp only
  rw [hclass]
  congr 1
  unfold classId
  rw [show ({ rt with heap } : Runtime).lookupClass
    (meth.cp.getD hd.catchType.toNat {}).str = rt.lookupClass _ from rfl]
  split
  · rename_i c _
    exact @isAssignableFrom_congr rt { rt with heap } rfl c _
  · rename_i hfresh
    exact @isAssignableFrom_congr
      (rt.addClass { name := (meth.cp.getD hd.catchType.toNat {}).str }).2
      (({ rt with heap } : Runtime).addClass
        { name := (meth.cp.getD hd.catchType.toNat {}).str }).2 rfl rt.classes.length _

/-- The search answers with the first handler in table order. -/
theorem findHandler_first (meth : Method) (pc : Nat) (hs : List ExceptionHandler) :
    ∀ rt : Runtime, rt.Hierarchy → rt.heap.classOf exc < rt.classes.length →
      (findHandler meth pc exc hs rt).1 = hs.find? (handles rt meth pc exc) ∧
        (findHandler meth pc exc hs rt).2.heap = rt.heap ∧
        SameAnswers exc rt (findHandler meth pc exc hs rt).2 := by
  induction hs with
  | nil => exact fun rt h hexc => ⟨rfl, rfl, h, hexc, fun _ _ => rfl⟩
  | cons hd hs ih =>
    intro rt h hexc
    have hself : SameAnswers exc rt rt := ⟨h, hexc, fun _ _ => rfl⟩
    rw [findHandler]
    by_cases hcov : pc < hd.start ∨ hd.stop ≤ pc
    · have hno : handles rt meth pc exc hd = false := by
        rw [handles, decide_eq_false (by omega), Bool.false_and]
      rw [if_pos hcov, find?_cons, hno]
      exact ih rt h hexc
    · have hin : handles rt meth pc exc hd = catches rt meth exc hd := by
        rw [handles, decide_eq_true (by omega), Bool.true_and]
      rw [if_neg hcov, find?_cons, hin]
      by_cases hall : hd.catchType < 0
      · have hyes : catches rt meth exc hd = true := by
          rw [catches]
          simp [hall]
        rw [if_pos hall, hyes]
        exact ⟨rfl, rfl, hself⟩
      · have hsame := sameAnswers_classId h hexc (meth.cp.getD hd.catchType.toNat {}).str
        have hheap := heap_classId rt (meth.cp.getD hd.catchType.toNat {}).str
        have hcatch : catches rt meth exc hd =
            (rt.classId (meth.cp.getD hd.catchType.toNat {}).str).2.isAssignableFrom
              (rt.classId (meth.cp.getD hd.catchType.toNat {}).str).1 (rt.heap.classOf exc) := by
          rw [catches]
          simp [hall]
        rw [if_neg hall, hcatch]
        dsimp only
        rw [hheap]
        split
        · rename_i hyes
          rw [hyes]
          exact ⟨rfl, hheap, hsame⟩
        rename_i hno
        rw [Bool.not_eq_true] at hno
        rw [hno]
        obtain ⟨hfind, hrest, hlast⟩ := ih _ hsame.hierarchy hsame.registered
        rw [hsame.handles] at hfind
        exact ⟨hfind, hrest.trans hheap, hsame.trans hlast⟩

end Search

theorem classOf_monitorexit (h : Heap) (r q : Nat) :
    (h.monitorexit r).2.classOf q = h.classOf q := by
  unfold Heap.monitorexit
  split
  · rfl
  rename_i o hobj
  split
  · rfl
  · unfold Heap.classOf
    rw [Heap.obj_setObj hobj]
    by_cases hq : q = r
    · rw [if_pos hq, hq, hobj]
    · rw [if_neg hq]

theorem classOf_release (f : Frame) (h : Heap) (q : Nat) :
    (releaseMonitorsLIFO h f).classOf q = h.classOf q := by
  unfold releaseMonitorsLIFO
  generalize f.monitors = monitors
  induction monitors generalizing h with
  | nil => rfl
  | cons r rest ih => rw [foldl_cons, ih, classOf_monitorexit]

theorem held_releaseAll (frames : List Frame) (r : Nat) :
    ∀ h : Heap, (releaseAll h frames).held r = h.held r - entries r frames := by
  induction frames with
  | nil => exact fun h => (Nat.sub_zero _).symm
  | cons f rest ih =>
    intro h
    show (releaseAll (releaseMonitorsLIFO h f) rest).held r = _
    rw [ih, entries_cons, releaseMonitorsLIFO, Heap.held_release_sub]
    omega

theorem unwind_first (p : Program) (exc : Nat) (frames : List Frame) :
    ∀ rt : Runtime, rt.Hierarchy → rt.heap.classOf exc < rt.classes.length →
      match unwind p exc frames rt with
      | (some fs, rt') => ∃ inner f outer h, frames = inner ++ f :: outer ∧
          (∀ g ∈ inner, handlerOf p rt exc g = none) ∧ handlerOf p rt exc f = some h ∧
          fs = enterHandler (method p f.method) f h exc :: outer ∧
          rt'.heap = releaseAll rt.heap inner
      | (none, rt') => (∀ g ∈ frames, handlerOf p rt exc g = none) ∧
          rt'.heap = releaseAll rt.heap frames := by
  induction frames with
  | nil =>
    intro rt _ _
    exact ⟨fun _ => not_mem_nil.elim, rfl⟩
  | cons f rest ih =>
    intro rt h hexc
    obtain ⟨hfind, hheap, hsame⟩ := findHandler_first (method p f.method) f.pc
      (method p f.method).handlers rt h hexc
    rw [unwind]
    generalize findHandler (method p f.method) f.pc exc
      (method p f.method).handlers rt = found at hfind hheap hsame
    obtain ⟨handler, rt₁⟩ := found
    cases handler with
    | some hd => exact ⟨[], f, rest, hd, rfl, fun _ => not_mem_nil.elim, hfind.symm, rfl, hheap⟩
    | none =>
      dsimp only at hheap hsame ⊢
      have hreleased := sameAnswers_heap hsame.hierarchy hsame.registered
        (classOf_release f rt₁.heap exc)
      have hall := hsame.trans hreleased
      have hrec := ih _ hall.hierarchy hall.registered
      have hanswers : ∀ g, handlerOf p { rt₁ with heap := releaseMonitorsLIFO rt₁.heap f } exc g =
            handlerOf p rt exc g := by
        intro g
        rw [handlerOf, hall.handles]
        rfl
      have hstart : releaseMonitorsLIFO rt₁.heap f = releaseMonitorsLIFO rt.heap f := by
        rw [hheap]
      generalize unwind p exc rest { rt₁ with heap := releaseMonitorsLIFO rt₁.heap f } = result
        at hrec ⊢
      obtain ⟨fs, rt₂⟩ := result
      cases fs with
      | some fs =>
        obtain ⟨inner, g, outer, hd, hsplit, hinner, hfirst, hfs, hlast⟩ := hrec
        refine ⟨f :: inner, g, outer, hd, by rw [hsplit]; rfl, ?_, ?_, hfs, ?_⟩
        · intro x hx
          rcases mem_cons.mp hx with rfl | hx
          · exact hfind.symm
          · rw [← hanswers]
            exact hinner x hx
        · rw [← hanswers]
          exact hfirst
        · rw [hlast, hstart]
          rfl
      | none =>
        obtain ⟨hnone, hlast⟩ := hrec
        refine ⟨?_, by rw [hlast, hstart]; rfl⟩
        intro x hx
        rcases mem_cons.mp hx with rfl | hx
        · exact hfind.symm
        · rw [← hanswers]
          exact hnone x hx

/-! ## The law holds -/

theorem dispatched_throw {E : Env} {m : Machine} {exc : Nat} (h : m.rt.Hierarchy)
    (hexc : m.rt.heap.classOf exc < m.rt.classes.length) :
    Dispatched E m exc (throwException E m exc) := by
  have hcount : ∀ g, (m.count E.cfg g).rt = m.rt ∧ (m.count E.cfg g).frames = m.frames := by
    intro g
    unfold Machine.count
    split <;> exact ⟨rfl, rfl⟩
  obtain ⟨hrt, hframes⟩ := hcount fun s => { s with exceptions := s.exceptions + 1 }
  unfold throwException
  dsimp only
  generalize m.count E.cfg (fun s => { s with exceptions := s.exceptions + 1 }) = m₁
    at hrt hframes
  have hunwound := unwind_first E.program exc m.frames m.rt h hexc
  rw [hrt, hframes]
  generalize unwind E.program exc m.frames m.rt = result at hunwound ⊢
  obtain ⟨fs, rt⟩ := result
  cases fs with
  | some fs =>
    obtain ⟨inner, f, outer, hd, hsplit, hinner, hfirst, rfl, hheap⟩ := hunwound
    refine .caught hsplit hinner hfirst rfl rfl rfl rfl rfl rfl hheap ?_
    intro r
    show rt.heap.held r = _
    rw [hheap, held_releaseAll]
  | none =>
    obtain ⟨hall, hheap⟩ := hunwound
    refine .uncaught hall rfl rfl hheap ?_
    intro r
    show rt.heap.held r = _
    rw [hheap, held_releaseAll]

/-- Exception dispatch: the classes of every state of every session form a hierarchy, and from
every machine whose classes do, an exception object of a registered class is thrown as the
law says. -/
theorem throwException_dispatches (E : Env) : (∀ (first : Call) (calls : List Call) (n : Nat),
        (flowAt E first calls n).HasRuntime Runtime.Hierarchy) ∧
      ∀ (m : Machine) (exc : Nat), m.rt.Hierarchy → m.rt.heap.classOf exc < m.rt.classes.length →
          Dispatched E m exc (throwException E m exc) :=
  ⟨hasRuntime_flowAt hierarchy_invariant (hierarchy_init E.program),
    fun _ _ h hexc => dispatched_throw h hexc⟩

/-- A caller that catches by a superclass, behind an entry of another class. -/
def mainCatching : Method where
  name := "main"
  flags := 0x0008
  numRegs := 1
  code := [⟨.invokestatic, 0, 0, 0, 0⟩, ⟨.returnVoid, 0, 0, 0, 0⟩, ⟨.returnVoid, 0, 0, 0, 0⟩,
    ⟨.returnVoid, 0, 0, 0, 0⟩]
  cp := [{ kind := .methodRef, str := "Main", str2 := "work", str3 := "()V" },
    { kind := .klass, str := "java/lang/IndexOutOfBoundsException" },
    { kind := .klass, str := "java/lang/RuntimeException" }]
  handlers := [⟨0, 1, 1, 1⟩, ⟨0, 1, 2, 2⟩, ⟨0, 1, 3, -1⟩]

/-- A callee whose catch-all entry covers another pc. -/
def workThrowing : Method where
  name := "work"
  flags := 0x0008
  numRegs := 1
  code := [⟨.aconstNull, 0, 0, 0, 0⟩, ⟨.athrow, 0, 0, 0, 0⟩]
  handlers := [⟨0, 1, 0, -1⟩]

def catching : Env where
  program := { methods := [mainCatching, workThrowing] }
  host := default

/-- The callee is about to throw an arithmetic exception and holds the first object twice. -/
def aboutToThrow : Machine :=
  let rt := ((init catching.program).makeException kClsArithmetic kMsgDivByZero).2
  { rt := { rt with heap := (((rt.heap.monitorenter 1).2).monitorenter 1).2 },
    frames := [{ method := 1, pc := 1, monitors := [1, 1] },
      { method := 0, locals := [.nullVal] }] }

/-- Frames of a flow in the loop, and how often an object is held there. -/
def landing (r : Nat) : Flow → Option (Nat × List Frame)
  | .running m => some (m.rt.heap.held r, m.frames)
  | _ => none

/-- The exception lands behind the second entry of the caller, and the monitor is free. -/
theorem throwException_catching :
    Dispatched catching aboutToThrow 3 (throwException catching aboutToThrow 3) ∧
      landing 1 (throwException catching aboutToThrow 3) =
        some (0, [{ method := 0, pc := 2, locals := [.nullVal], regs := [.refVal 3] }]) := by
  refine ⟨(throwException_dispatches catching).2 aboutToThrow 3 ?_ (by decide +kernel),
    by decide +kernel⟩
  have hmade := hierarchy_invariant.services.makeException (init catching.program)
    kClsArithmetic kMsgDivByZero (hierarchy_init _)
  exact hierarchy_of_eq hmade rfl rfl

end B2Compiler.Interp
