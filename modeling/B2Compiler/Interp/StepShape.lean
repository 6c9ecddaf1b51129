import B2Compiler.Interp.Dispatch
import B2Compiler.Interp.Registry

/-!
# The shape of a handler

A handler uses the runtime's services and then does one of a few things to the frames:
it changes the innermost frame in place, enters or leaves a monitor, starts a class
initializer, pushes the frame of a call, throws, or returns.  `shape_exec` is that case
analysis, over any relation between machines the services stay inside of, so that each
invariant of the interpreter picks the relation it needs.
-/

namespace B2Compiler.Interp

open Rbc Runtime Machine Heap

/-- Does the instruction use the program class in a way that initialises it?
These are the probes of `new`, `ldc` of a class, the static accesses and the static
calls; a builtin static is read before any probe. -/
def initTrigger (E : Env) (rt : Runtime) (f : Frame) (ins : Ins) : Bool :=
  let c := poolAt E f ins.immIdx
  match ins.op with
  | .new => c.str == E.program.className
  | .ldc => c.kind == .klass && c.str == E.program.className
  | .getstatic | .putstatic =>
    c.kind == .fieldRef && c.str == E.program.className && (rt.builtinStatic c).isNone
  | .invokestatic => (resolveMethod E.program c).isSome
  | .invokestaticQuick => ins.immIdx < E.program.methods.length
  | _ => false

def VirtualTarget.callee : VirtualTarget → Option Nat
  | .cached t | .resolved t => some t
  | .builtin _ | .missing => none

/-- The method an invoke would push. -/
def invokeTarget (E : Env) (m : Machine) (f : Frame) (ins : Ins) : Option Nat :=
  let ref := poolAt E f ins.immIdx
  let recv := f.reg ins.aReg
  match ins.op with
  | .invokevirtual | .invokeinterface =>
    if recv.isNull then none else (virtualTarget E m f.method f.pc recv ref).callee
  | .invokevirtualQuick | .invokeinterfaceQuick =>
    if recv.isNull then none else (virtualTarget E m f.method ins.immIdx recv ref).callee
  | .invokespecial => if recv.isNull then none else resolveMethod E.program ref
  | .invokestatic => resolveMethod E.program ref
  | .invokespecialQuick => if recv.isNull then none else some ins.immIdx
  | .invokestaticQuick => some ins.immIdx
  | _ => none

theorem Machine.count_rt (m : Machine) (cfg : InterpConfig) (g : InterpStats → InterpStats) :
    (m.count cfg g).rt = m.rt := by
  unfold count
  split <;> rfl

theorem Machine.count_siteICs (m : Machine) (cfg : InterpConfig)
    (g : InterpStats → InterpStats) : (m.count cfg g).siteICs = m.siteICs := by
  unfold count
  split <;> rfl

theorem Heap.monitorenter_fail (h : Heap) (r : Nat) (hfail : (h.monitorenter r).1 ≠ .none) :
    (h.monitorenter r).2 = h := by
  unfold monitorenter at hfail ⊢
  split
  · rfl
  · split
    · simp_all
    · split
      · simp_all
      · rfl

theorem Heap.monitorexit_fail (h : Heap) (r : Nat) (hfail : (h.monitorexit r).1 ≠ .none) :
    (h.monitorexit r).2 = h := by
  unfold monitorexit at hfail ⊢
  split
  · rfl
  · split
    · rfl
    · simp_all

/-- A relation between machines that every service of the runtime stays inside of, as the
handler of `ins` in frame `f` uses them.  The record is that of a call a builtin served; the
two fills are those of a field site and of a call site whose caches are cold. -/
structure Services (E : Env) (f : Frame) (ins : Ins) (R : Machine → Machine → Prop) : Prop where
  refl : ∀ m, R m m
  trans : ∀ {m m₁ m₂}, R m m₁ → R m₁ m₂ → R m m₂
  count : ∀ m g, R m (m.count E.cfg g)
  trace : ∀ m text, R m { m with safepointTrace := text }
  record : ∀ {m site kind}, site = f.pc ∧ (ins.op = .invokevirtual ∨ ins.op = .invokeinterface) ∨
      site = ins.immIdx ∧ (ins.op = .invokevirtualQuick ∨ ins.op = .invokeinterfaceQuick) →
    R m (recordDispatch f.method site kind kDispatchNoRecvClass kDispatchNoTarget m)
  classId : ∀ m n, R m { m with rt := (m.rt.classId n).2 }
  resolveField : ∀ m c, R m { m with rt := (m.rt.resolveField c).2 }
  internString : ∀ m s, R m { m with rt := (m.rt.internString s).2 }
  classObject : ∀ m cls, R m { m with rt := (m.rt.classObject cls).2 }
  newInstance : ∀ m cls, R m { m with rt := (m.rt.newInstance cls).2 }
  newArray : ∀ m atype n, R m { m with rt := (m.rt.newArray atype n).2 }
  newRefArray : ∀ m cls n, R m { m with rt := (m.rt.newRefArray cls n).2 }
  newMultiArray : ∀ m cls dims, R m { m with rt := (m.rt.newMultiArray cls dims).2 }
  makeException : ∀ m cls msg, R m { m with rt := (m.rt.makeException cls msg).2 }
  execBuiltin : ∀ {m b args rt}, m.rt.execBuiltin E.host b args = some rt → R m { m with rt }
  bumpBackedge : ∀ m id, R m { m with rt := m.rt.bumpBackedge id }
  storeStatic : ∀ m id v, R m { m with rt := m.rt.storeStatic id v }
  loadField : ∀ m r slot, R m (m.setHeap (m.rt.heap.loadField r slot).2)
  storeField : ∀ {m r slot v heap}, m.rt.heap.storeField r slot v = some heap → R m (m.setHeap heap)
  storeElem : ∀ {m r i v heap}, m.rt.heap.storeElem r i v = some heap → R m (m.setHeap heap)
  fillField : ∀ {m rf rt}, ins.op = .getfield ∨ ins.op = .putfield →
    m.rt.resolveField (poolAt E f ins.immIdx) = (some rf, rt) →
    R m { m with rt, siteICs := fillSiteIC m.siteICs f.method f.pc rf.slot rf.cls }
  fillCall : ∀ {m site t}, site = f.pc ∧ (ins.op = .invokevirtual ∨ ins.op = .invokeinterface) ∨
      site = ins.immIdx ∧ (ins.op = .invokevirtualQuick ∨ ins.op = .invokeinterfaceQuick) →
    virtualTarget E m f.method site (f.reg ins.aReg) (poolAt E f ins.immIdx) = .resolved t →
    R m { m with
      siteICs := fillSiteIC m.siteICs f.method site t (m.rt.heap.classOf (f.reg ins.aReg).asObj) }

/-- The search for a handler only interns catch types. -/
theorem findHandler_within {Q : Runtime → Runtime → Prop} (P : Runtime.Primitives Q)
    (meth : Method) (pc exc : Nat) (hs : List ExceptionHandler) :
    ∀ rt : Runtime, Q rt (findHandler meth pc exc hs rt).2 := by
  induction hs with
  | nil => exact P.refl
  | cons h hs ih =>
    intro rt
    rw [findHandler]
    split
    · exact ih rt
    split
    · exact P.refl rt
    · dsimp only
      have hq := P.classId rt (meth.cp.getD h.catchType.toNat {}).str
      split
      · exact hq
      · exact P.trans hq (ih _)

theorem unwind_within {Q : Runtime → Runtime → Prop} (P : Runtime.Primitives Q)
    (hrelease : ∀ (rt : Runtime) f, Q rt { rt with heap := releaseMonitorsLIFO rt.heap f })
    (p : Program) (exc : Nat) (frames : List Frame) :
    ∀ rt : Runtime, Q rt (unwind p exc frames rt).2 := by
  induction frames with
  | nil => exact P.refl
  | cons f rest ih =>
    intro rt
    rw [unwind]
    have hfound := findHandler_within P (Runtime.method p f.method) f.pc exc
      (Runtime.method p f.method).handlers rt
    split
    all_goals
      rename_i heq
      rw [heq] at hfound
    · exact hfound
    · exact P.trans (P.trans hfound (hrelease _ f)) (ih _)

/-! ## The lock of an entry method -/

section Lock

variable {E : Env} {entry : Method} {args : List Value} {rt rt' : Runtime} {obj : Nat}

/-- The object the lock of an entry method is, and the runtime when it is found. -/
def LockFound (E : Env) (entry : Method) (args : List Value) (rt : Runtime) (obj : Nat)
    (rt' : Runtime) : Prop :=
  entry.isStatic = true ∧ (obj, rt') =
      (rt.classId E.program.className).2.classObject (rt.classId E.program.className).1 ∨
    entry.isStatic = false ∧ args.head?.map Value.asObj = some obj ∧ rt' = rt

def lockObject (obj : Nat) (rt : Runtime) : Except String Nat × Runtime :=
  match rt.heap.monitorenter obj with
  | (.none, heap) => (.ok obj, { rt with heap })
  | (_, heap) => (.error kClsIllegalMonitor, { rt with heap })

theorem entryLock_cases (E : Env) (entry : Method) (args : List Value) (rt : Runtime) :
    (∃ cls, entryLock E entry args rt = (.error cls, rt)) ∨ ∃ obj rt',
      LockFound E entry args rt obj rt' ∧ entryLock E entry args rt = lockObject obj rt' := by
  unfold entryLock
  dsimp only
  cases hstatic : entry.isStatic with
  | true => exact .inr ⟨_, _, .inl ⟨hstatic, rfl⟩, rfl⟩
  | false =>
    cases args with
    | nil => exact .inl ⟨_, rfl⟩
    | cons recv args =>
      cases hnull : recv.isNull with
      | true => exact .inl ⟨kClsNullPointer, by simp [hnull]⟩
      | false => exact .inr ⟨_, _, .inr ⟨hstatic, rfl, rfl⟩, by simp only [hnull]; rfl⟩

theorem LockFound.within (h : LockFound E entry args rt obj rt') {Q : Runtime → Runtime → Prop}
    (P : Runtime.Primitives Q) : Q rt rt' := by
  rcases h with ⟨-, h⟩ | ⟨-, -, rfl⟩
  · obtain rfl : rt' = _ := congrArg Prod.snd h
    exact P.trans (P.classId rt _) (P.classObject _ _)
  · exact P.refl rt'

theorem entryLock_within {Q : Runtime → Runtime → Prop} (P : Runtime.Primitives Q)
    (hlock : ∀ obj rt, Q rt (lockObject obj rt).2) (entry : Method) (args : List Value)
    (rt : Runtime) : Q rt (entryLock E entry args rt).2 := by
  rcases entryLock_cases E entry args rt with ⟨cls, h⟩ | ⟨obj, rt', hfound, h⟩
  · rw [h]
    exact P.refl rt
  · rw [h]
    exact P.trans (hfound.within P) (hlock obj rt')

end Lock

/-- Does the opcode read or write a local slot? -/
def accessesLocal (op : Op) : Bool := (info op).sig = .regSlot || (info op).sig = .slotReg

inductive Shape (E : Env) (R : Machine → Machine → Prop) (m : Machine) (f : Frame) (ins : Ins) :
    Flow → Prop where
  /-- The innermost frame changed in place, its monitors aside. -/
  | stay {m₁ : Machine} {f' : Frame} (h : R m m₁) (hmethod : f'.method = f.method)
      (hmonitors : f'.monitors = f.monitors) (hregs : f'.regs.length = f.regs.length)
      (hlocals : f'.locals.length = f.locals.length) (hcaller : f'.callerPc = f.callerPc) :
      Shape E R m f ins (.running (m₁.setTop f'))
  | enter {heap : Heap} (hop : ins.op = .monitorenter)
      (h : m.rt.heap.monitorenter (f.reg ins.aReg).asObj = (.none, heap)) :
      Shape E R m f ins (.running ((m.setHeap heap).setTop
        { f with monitors := (f.reg ins.aReg).asObj :: f.monitors, pc := f.pc + 1 }))
  | exit {heap : Heap} (hop : ins.op = .monitorexit)
      (h : m.rt.heap.monitorexit (f.reg ins.aReg).asObj = (.none, heap)) :
      Shape E R m f ins (.running ((m.setHeap heap).setTop
        { f with monitors := f.monitors.erase (f.reg ins.aReg).asObj, pc := f.pc + 1 }))
  /-- A trigger found the class uninitialised. -/
  | init {m₁ : Machine} {cls : Nat} (h : R m m₁) (hkeeps : m.rt.Keeps m₁.rt)
      (hneeds : m₁.rt.needsInit E.program cls = true)
      (htrigger : m.rt.Registered → initTrigger E m.rt f ins = true) :
      Shape E R m f ins (pushClinit E m₁ f cls)
  /-- A call, with its profile written behind it. -/
  | call {m₁ : Machine} {t site r : Nat} {kind : DispatchSiteKind} (h : R m m₁)
      (htarget : invokeTarget E m f ins = some t) :
      Shape E R m f ins ((pushCall E m₁ f ins t).map (recordDispatch f.method site kind r t))
  | throws {m₁ : Machine} {exc : Nat} (h : R m m₁) : Shape E R m f ins (throwException E m₁ exc)
  | ret (hop : isReturnOp ins.op = true) : Shape E R m f ins (execReturn E m f ins)
  /-- A local slot outside the frame was accessed. -/
  | undefined (hop : accessesLocal ins.op = true) (hslot : f.locals.length ≤ ins.immIdx) :
      Shape E R m f ins .undefined

section Handlers

variable {E : Env} {R : Machine → Machine → Prop} {m m₁ : Machine} {f : Frame} {ins : Ins}

/-! ## Straight-line results -/

theorem shape_next {f₁ : Frame} (h : R m m₁) (hmethod : f₁.method = f.method)
    (hmonitors : f₁.monitors = f.monitors) (hregs : f₁.regs.length = f.regs.length)
    (hlocals : f₁.locals.length = f.locals.length) (hcaller : f₁.callerPc = f.callerPc) :
    Shape E R m f ins (next m₁ f₁) :=
  (.stay h hmethod hmonitors hregs hlocals hcaller :
    Shape E R m f ins (.running (m₁.setTop f₁.next)))

theorem shape_put (h : R m m₁) (v : Value) : Shape E R m f ins (put m₁ f ins v) :=
  shape_next h (rfl : (f.setReg ins.dstReg v).method = f.method) rfl List.length_set rfl rfl

theorem shape_putRef {r : Nat × Runtime} (h : R m { m₁ with rt := r.2 }) :
    Shape E R m f ins (putRef m₁ f ins r) :=
  shape_put h _

/-- A probe either starts the initializer at a trigger or lets the access run. -/
theorem shape_probe {cls : Nat} {cont : Flow} (h : R m m₁) (hkeeps : m.rt.Keeps m₁.rt)
    (htrigger : m₁.rt.needsInit E.program cls = true → m.rt.Registered →
      initTrigger E m.rt f ins = true) (hcont : Shape E R m f ins cont) :
    Shape E R m f ins (match initClassIfNeeded E m₁ f cls with
      | some flow => flow
      | none => cont) := by
  unfold initClassIfNeeded
  split
  · rename_i hsome
    split at hsome
    · rename_i hneeds
      cases hsome
      exact .init h hkeeps hneeds (htrigger hneeds)
    · cases hsome
  · exact hcont

/-- The class a probe interned by name is the program class when it needs initialisation. -/
theorem name_of_needsInit {rt rt' : Runtime} {cls : Nat} {n : String} (hk : rt.Keeps rt')
    (hreg : rt.Registered) (hclass : ∃ ci, rt'.classes[cls]? = some ci ∧ ci.name = n)
    (hneeds : rt'.needsInit E.program cls = true) : n = E.program.className := by
  obtain ⟨ci, hci, hname⟩ := hclass
  obtain ⟨⟨ci', hci', hname'⟩, _⟩ := (needsInit_iff (hk.registered hreg)).mp hneeds
  rw [hci] at hci'
  cases hci'
  exact hname.symm.trans hname'

variable (S : Services E f ins R)
include S

theorem shape_raise (h : R m m₁) (cls msg : String) : Shape E R m f ins (raise E m₁ cls msg) :=
  .throws (S.trans h (S.makeException m₁ cls msg))

theorem shape_npe (h : R m m₁) : Shape E R m f ins (raiseNpe E m₁) := shape_raise S h _ _

theorem shape_jump (h : R m m₁) (target : Nat) : Shape E R m f ins (jump m₁ f target) := by
  unfold jump
  dsimp only
  split
  · exact .stay (S.trans h (S.bumpBackedge m₁ f.method)) rfl rfl rfl rfl rfl
  · exact .stay h rfl rfl rfl rfl rfl

/-! ## Fields and statics -/

theorem fieldSlot_inside (hop : ins.op = .getfield ∨ ins.op = .putfield) :
    R m (fieldSlot E m f ins).2 := by
  unfold fieldSlot
  split
  · exact S.count m fun s => { s with icHits := s.icHits + 1 }
  dsimp only
  have hmiss := S.count m fun s => { s with icMisses := s.icMisses + 1 }
  generalize m.count E.cfg (fun s => { s with icMisses := s.icMisses + 1 }) = m₂ at hmiss
  have hres := S.resolveField m₂ (poolAt E f ins.immIdx)
  split
  · rename_i heq
    exact S.trans hmiss (S.fillField hop heq)
  · rename_i heq
    rw [heq] at hres
    exact S.trans hmiss hres

theorem shape_getfield (hop : ins.op = .getfield) : Shape E R m f ins (execGetfield E m f ins) := by
  unfold execGetfield
  dsimp only
  split
  · exact shape_npe S (S.refl m)
  have hslot : R m (fieldSlot E m f ins).2 := fieldSlot_inside S (Or.inl hop)
  split
  · rename_i heq
    rw [heq] at hslot
    exact shape_raise S hslot _ _
  rename_i slot m₁ heq
  rw [heq] at hslot
  have hload := S.trans hslot (S.loadField m₁ (f.reg ins.aReg).asObj slot)
  generalize m₁.setHeap (m₁.rt.heap.loadField (f.reg ins.aReg).asObj slot).2 = m₂ at hload
  split
  · unfold defaultField
    split
    · exact shape_raise S hload _ _
    · dsimp only
      have hres := S.trans hload (S.resolveField m₂ (poolAt E f ins.immIdx))
      split
      · exact shape_raise S hres _ _
      · exact shape_put hres _
  · exact shape_put hload _

theorem shape_storeSlot (h : R m m₁) (slot : Nat) :
    Shape E R m f ins (storeSlot E m₁ f ins slot) := by
  unfold storeSlot
  split
  · rename_i heq
    exact shape_next (S.trans h (S.storeField heq)) rfl rfl rfl rfl rfl
  · exact shape_raise S h _ _

theorem shape_putfield (hop : ins.op = .putfield) : Shape E R m f ins (execPutfield E m f ins) := by
  unfold execPutfield
  split
  · exact shape_npe S (S.refl m)
  have hslot : R m (fieldSlot E m f ins).2 := fieldSlot_inside S (Or.inr hop)
  split
  · rename_i heq
    rw [heq] at hslot
    exact shape_raise S hslot _ _
  · rename_i heq
    rw [heq] at hslot
    exact shape_storeSlot S hslot _

theorem shape_getfieldQuick : Shape E R m f ins (execGetfieldQuick E m f ins) := by
  have hload := S.loadField m (f.reg ins.aReg).asObj (slotOfFieldOffset ins.immIdx)
  unfold execGetfieldQuick
  dsimp only
  split
  · exact shape_npe S (S.refl m)
  · split
    · split
      all_goals exact shape_raise S hload _ _
    · exact shape_put hload _

theorem shape_putfieldQuick : Shape E R m f ins (execPutfieldQuick E m f ins) := by
  unfold execPutfieldQuick
  split
  · exact shape_npe S (S.refl m)
  · exact shape_storeSlot S (S.refl m) _

theorem shape_withStatic {c : Const} {access : Machine → ResolvedField → Flow}
    (htrigger : c.kind = .fieldRef → c.str = E.program.className → initTrigger E m.rt f ins = true)
    (haccess : ∀ m₁ rf, R m m₁ → Shape E R m f ins (access m₁ rf)) :
    Shape E R m f ins (withStatic E m f c access) := by
  have hres := S.resolveField m c
  have hk := keeps_resolveField m.rt c
  unfold withStatic
  split
  · rename_i heq
    rw [heq] at hres
    exact shape_raise S hres _ _
  rename_i rf rt heq
  rw [heq] at hres hk
  refine shape_probe hres hk ?_ (haccess _ rf hres)
  intro hneeds hreg
  apply htrigger
  · by_contra hkind
    unfold resolveField at heq
    rw [if_pos hkind] at heq
    cases heq
  · exact name_of_needsInit hk hreg (resolveField_cls hreg heq) hneeds

theorem shape_getstatic (hop : ins.op = .getstatic) :
    Shape E R m f ins (execGetstatic E m f ins) := by
  unfold execGetstatic
  dsimp only
  split
  · exact shape_put (S.refl m) _
  rename_i hnone
  refine shape_withStatic S ?_ ?_
  · intro hkind hstr
    rw [initTrigger]
    simp [hop, hkind, hstr, hnone]
  intro m₁ rf h
  unfold loadStatic
  dsimp only
  split
  · split
    · exact shape_raise S h _ _
    · exact shape_put h _
  · exact shape_put h _

theorem shape_putstatic (hop : ins.op = .putstatic) :
    Shape E R m f ins (execPutstatic E m f ins) := by
  unfold execPutstatic
  dsimp only
  split
  · exact shape_raise S (S.refl m) _ _
  rename_i hnone
  refine shape_withStatic S ?_ ?_
  · intro hkind hstr
    rw [initTrigger]
    simp [hop, hkind, hstr, hnone]
  · intro m₁ rf h
    exact shape_next (S.trans h (S.storeStatic m₁ _ _)) rfl rfl rfl rfl rfl

theorem shape_ldc (hop : ins.op = .ldc) : Shape E R m f ins (execLdc E m f ins) := by
  unfold execLdc
  dsimp only
  split
  · exact shape_putRef (S.internString m _)
  · rename_i hkind
    have hclass := S.classId m (poolAt E f ins.immIdx).str
    have hk := keeps_classId m.rt (poolAt E f ins.immIdx).str
    refine shape_probe hclass hk ?_ (shape_putRef (S.trans hclass (S.classObject _ _)))
    intro hneeds hreg
    have hname := name_of_needsInit hk hreg (classId_name hreg _) hneeds
    rw [initTrigger]
    simp [hop, hkind, hname]
  all_goals exact shape_raise S (S.refl m) _ _

theorem shape_load (hop : accessesLocal ins.op = true) : Shape E R m f ins (execLoad m f ins) := by
  unfold execLoad
  split
  · exact shape_put (S.refl m) _
  · rename_i hnone
    exact .undefined hop (List.getElem?_eq_none_iff.mp hnone)

theorem shape_store (hop : accessesLocal ins.op = true) :
    Shape E R m f ins (execStore m f ins) := by
  unfold execStore
  split
  · exact shape_next (S.refl m) rfl rfl rfl List.length_set rfl
  · rename_i hslot
    exact .undefined hop (by omega)

/-! ## Arrays -/

theorem shape_withElem {access : Nat → Nat → Flow}
    (haccess : ∀ arr idx, Shape E R m f ins (access arr idx)) :
    Shape E R m f ins (withElem E m f ins access) := by
  unfold withElem
  dsimp only
  split
  · exact shape_npe S (S.refl m)
  · split
    · exact shape_raise S (S.refl m) _ _
    · exact haccess _ _

theorem shape_storeAt (h : R m m₁) (arr idx : Nat) (v : Value) :
    Shape E R m f ins (storeAt E m₁ f arr idx v) := by
  unfold storeAt
  split
  · rename_i heq
    exact shape_next (S.trans h (S.storeElem heq)) rfl rfl rfl rfl rfl
  · exact shape_raise S h _ _

theorem shape_arrayLoad : Shape E R m f ins (arrayLoad E m f ins) := by
  apply shape_withElem S
  intro arr idx
  dsimp only
  split
  · exact shape_raise S (S.refl m) _ _
  · exact shape_put (S.refl m) _

theorem shape_arrayStore : Shape E R m f ins (arrayStore E m f ins) := by
  apply shape_withElem S
  intro arr idx
  exact shape_storeAt S (S.refl m) _ _ _

theorem shape_aastore : Shape E R m f ins (execAastore E m f ins) := by
  apply shape_withElem S
  intro arr idx
  dsimp only
  split
  · exact shape_storeAt S (S.refl m) _ _ _
  have hstore : ∀ {m₁ : Machine} (ok : Bool) (msg : String), R m m₁ →
      Shape E R m f ins (if ok then storeAt E m₁ f arr idx (f.reg ins.dstReg)
        else raise E m₁ kClsArrayStore msg) := by
    intro m₁ ok msg h
    split
    · exact shape_storeAt S h _ _ _
    · exact shape_raise S h _ _
  unfold storeChecked
  dsimp only
  split
  · exact hstore _ _ (S.classId m _)
  · split
    · exact hstore _ _ (S.refl m)
    · exact shape_raise S (S.refl m) _ _

theorem shape_withLength {len : BitVec 32} {alloc : Nat → Flow}
    (halloc : ∀ n, Shape E R m f ins (alloc n)) :
    Shape E R m f ins (withLength E m len alloc) := by
  unfold withLength
  split
  · exact shape_raise S (S.refl m) _ _
  · exact halloc _

theorem shape_newArray : Shape E R m f ins (execNewArray E m f ins) :=
  shape_withLength S fun _ => shape_putRef (S.newArray m _ _)

theorem shape_anewArray : Shape E R m f ins (execAnewArray E m f ins) := by
  apply shape_withLength S
  intro n
  exact shape_putRef (S.trans (S.classId m _) (S.newRefArray _ _ _))

theorem shape_arraylength : Shape E R m f ins (execArraylength E m f ins) := by
  unfold execArraylength
  dsimp only
  split
  · exact shape_npe S (S.refl m)
  · split
    · exact shape_raise S (S.refl m) _ _
    · exact shape_put (S.refl m) _

theorem shape_multianewarray : Shape E R m f ins (execMultianewarray E m f ins) := by
  unfold execMultianewarray
  split
  · exact shape_raise S (S.refl m) _ _
  split
  · exact shape_raise S (S.refl m) _ _
  dsimp only
  split
  · exact shape_raise S (S.refl m) _ _
  · split
    · exact shape_raise S (S.refl m) _ _
    · exact shape_putRef (S.trans (S.classId m _) (S.newMultiArray _ _ _))

/-! ## Objects and monitors -/

theorem shape_new (hop : ins.op = .new) : Shape E R m f ins (execNew E m f ins) := by
  unfold execNew
  dsimp only
  have hclass := S.classId m (poolAt E f ins.immIdx).str
  have hk := keeps_classId m.rt (poolAt E f ins.immIdx).str
  refine shape_probe hclass hk ?_ (shape_putRef (S.trans hclass (S.newInstance _ _)))
  intro hneeds hreg
  have hname := name_of_needsInit hk hreg (classId_name hreg _) hneeds
  rw [initTrigger]
  simp [hop, hname]

theorem shape_checkcast : Shape E R m f ins (execCheckcast E m f ins) := by
  have hclass := S.classId m (poolAt E f ins.immIdx).str
  unfold execCheckcast
  dsimp only
  split
  · exact shape_put (S.refl m) _
  · split
    · exact shape_put hclass _
    · exact shape_raise S hclass _ _

theorem shape_instanceof : Shape E R m f ins (execInstanceof E m f ins) := by
  unfold execInstanceof
  dsimp only
  split
  · exact shape_put (S.refl m) _
  · exact shape_put (S.classId m _) _

theorem shape_monitor {op : Heap → Nat → MonFail × Heap} {record : Nat → List Nat → List Nat}
    (hfail : ∀ h r, (op h r).1 ≠ .none → (op h r).2 = h)
    (hdone : ∀ heap, op m.rt.heap (f.reg ins.aReg).asObj = (.none, heap) →
      Shape E R m f ins (next (m.setHeap heap)
        { f with monitors := record (f.reg ins.aReg).asObj f.monitors })) :
    Shape E R m f ins (execMonitor E m f ins op record) := by
  have hleft : ∀ {fail : MonFail} {heap : Heap},
      op m.rt.heap (f.reg ins.aReg).asObj = (fail, heap) → fail ≠ .none →
      R m (m.setHeap heap) := by
    intro fail heap heq hne
    have hsame := hfail m.rt.heap (f.reg ins.aReg).asObj
    rw [heq] at hsame
    rw [show heap = m.rt.heap from hsame hne]
    exact S.refl m
  unfold execMonitor
  dsimp only
  split
  · exact shape_npe S (S.refl m)
  split
  · rename_i heq
    exact shape_npe S (hleft heq (by decide))
  · rename_i heq
    exact shape_raise S (hleft heq (by decide)) _ _
  · rename_i heq
    exact hdone _ heq

theorem shape_monitorenter (hop : ins.op = .monitorenter) :
    Shape E R m f ins (execMonitorenter E m f ins) :=
  shape_monitor S monitorenter_fail fun _ h => .enter hop h

theorem shape_monitorexit (hop : ins.op = .monitorexit) :
    Shape E R m f ins (execMonitorexit E m f ins) :=
  shape_monitor S monitorexit_fail fun _ h => .exit hop h

/-! ## Invokes -/

theorem shape_dispatchVirtual {site : Nat} {kind : DispatchSiteKind}
    (hsite : site = f.pc ∧ (ins.op = .invokevirtual ∨ ins.op = .invokeinterface) ∨
      site = ins.immIdx ∧ (ins.op = .invokevirtualQuick ∨ ins.op = .invokeinterfaceQuick))
    (ht : invokeTarget E m f ins =
      (virtualTarget E m f.method site (f.reg ins.aReg) (poolAt E f ins.immIdx)).callee) :
    Shape E R m f ins (dispatchVirtual E m f ins site kind (poolAt E f ins.immIdx)) := by
  have hmiss := S.count m fun s => { s with icMisses := s.icMisses + 1 }
  have hrt : (m.count E.cfg fun s => { s with icMisses := s.icMisses + 1 }).rt = m.rt :=
    count_rt m E.cfg _
  have hics : (m.count E.cfg fun s => { s with icMisses := s.icMisses + 1 }).siteICs =
      m.siteICs := count_siteICs m E.cfg _
  unfold dispatchVirtual
  dsimp only
  generalize m.count E.cfg (fun s => { s with icMisses := s.icMisses + 1 }) = m₁
    at hmiss hrt hics
  split
  · rename_i t heq
    rw [heq] at ht
    exact .call (S.count m fun s => { s with icHits := s.icHits + 1 }) ht
  · split
    · rename_i hexec
      exact shape_next (S.trans (S.trans hmiss (S.execBuiltin hexec)) (S.record hsite)) rfl rfl
        rfl rfl rfl
    · exact shape_raise S hmiss _ _
  · rename_i t heq
    have htarget : virtualTarget E m₁ f.method site (f.reg ins.aReg) (poolAt E f ins.immIdx) =
        .resolved t := by
      rw [← heq]
      unfold virtualTarget
      rw [hrt, hics]
    have hfill : R m₁ { m₁ with
        siteICs := fillSiteIC m₁.siteICs f.method site t
          (m.rt.heap.classOf (f.reg ins.aReg).asObj) } := by
      rw [← hrt]
      exact S.fillCall hsite htarget
    rw [heq] at ht
    exact .call (S.trans hmiss hfill) ht
  · exact shape_raise S hmiss _ _

theorem shape_invokevirtual (hop : ins.op = .invokevirtual ∨ ins.op = .invokeinterface) :
    Shape E R m f ins (execInvokevirtual E m f ins) := by
  unfold execInvokevirtual
  split
  · exact shape_npe S (S.refl m)
  · rename_i hnull
    apply shape_dispatchVirtual S (.inl ⟨rfl, hop⟩)
    rw [invokeTarget]
    rcases hop with hop | hop <;> simp [hop, hnull]

theorem shape_invokevirtualQuick
    (hop : ins.op = .invokevirtualQuick ∨ ins.op = .invokeinterfaceQuick) :
    Shape E R m f ins (execInvokevirtualQuick E m f ins) := by
  unfold execInvokevirtualQuick
  dsimp only
  split
  · exact shape_npe S (S.refl m)
  rename_i hnull
  split
  · exact shape_raise S (S.refl m) _ _
  · split
    · exact shape_raise S (S.count m _) _ _
    · apply shape_dispatchVirtual S (.inr ⟨rfl, hop⟩)
      rw [invokeTarget]
      rcases hop with hop | hop <;> simp [hop, hnull]

theorem shape_invokespecial (hop : ins.op = .invokespecial) :
    Shape E R m f ins (execInvokespecial E m f ins) := by
  unfold execInvokespecial
  dsimp only
  split
  · exact shape_npe S (S.refl m)
  rename_i hnull
  split
  · rename_i t ht
    apply Shape.call (S.refl m)
    rw [invokeTarget]
    simp [hop, hnull, ht]
  · exact shape_raise S (S.refl m) _ _

theorem shape_invokestatic (hop : ins.op = .invokestatic) :
    Shape E R m f ins (execInvokestatic E m f ins) := by
  unfold execInvokestatic
  dsimp only
  split
  · exact shape_raise S (S.refl m) _ _
  rename_i t ht
  refine shape_probe (S.refl m) (.refl m.rt) (fun _ _ => ?_) (.call (S.refl m) ?_)
  · rw [initTrigger]
    simp [hop, ht]
  · rw [invokeTarget]
    simp [hop, ht]

theorem shape_invokespecialQuick (hop : ins.op = .invokespecialQuick) :
    Shape E R m f ins (execInvokespecialQuick E m f ins) := by
  unfold execInvokespecialQuick
  split
  · exact shape_npe S (S.refl m)
  rename_i hnull
  split
  · exact shape_raise S (S.refl m) _ _
  · apply Shape.call (S.refl m)
    rw [invokeTarget]
    simp [hop, hnull]

theorem shape_invokestaticQuick (hop : ins.op = .invokestaticQuick) :
    Shape E R m f ins (execInvokestaticQuick E m f ins) := by
  unfold execInvokestaticQuick
  split
  · exact shape_raise S (S.refl m) _ _
  rename_i hbound
  refine shape_probe (S.refl m) (.refl m.rt) (fun _ _ => ?_) (.call (S.refl m) ?_)
  · rw [initTrigger]
    simp [hop]
    omega
  · rw [invokeTarget]
    simp [hop]

theorem shape_athrow : Shape E R m f ins (execAthrow E m f ins) := by
  unfold execAthrow
  dsimp only
  split
  · exact shape_npe S (S.refl m)
  · exact .throws (S.refl m)

theorem shape_poll : Shape E R m f ins (execPoll E m f) := by
  have hcount := S.count m fun s => { s with polls := s.polls + 1 }
  unfold execPoll
  dsimp only
  generalize m.count E.cfg (fun s => { s with polls := s.polls + 1 }) = m₁ at hcount
  split
  · exact shape_next (S.trans hcount (S.trace m₁ _)) rfl rfl rfl rfl rfl
  · exact shape_next hcount rfl rfl rfl rfl rfl

theorem shape_exec : Shape E R m f ins (exec E m f ins) := by
  unfold exec
  split
  all_goals with_reducible first
    | exact shape_next (S.refl m) rfl rfl rfl rfl rfl
    | exact shape_put (S.refl m) _
    | exact shape_jump S (S.refl m) _
    | exact shape_raise S (S.refl m) _ _
    | exact shape_poll S
    | exact shape_ldc S (by assumption)
    | exact shape_load S (by simp only [*]; decide)
    | exact shape_store S (by simp only [*]; decide)
    | exact shape_getfield S (by assumption)
    | exact shape_putfield S (by assumption)
    | exact shape_getstatic S (by assumption)
    | exact shape_putstatic S (by assumption)
    | exact shape_getfieldQuick S
    | exact shape_putfieldQuick S
    | exact shape_newArray S
    | exact shape_anewArray S
    | exact shape_arraylength S
    | exact shape_arrayLoad S
    | exact shape_arrayStore S
    | exact shape_aastore S
    | exact shape_multianewarray S
    | exact shape_new S (by assumption)
    | exact shape_checkcast S
    | exact shape_instanceof S
    | exact shape_monitorenter S (by assumption)
    | exact shape_monitorexit S (by assumption)
    | exact shape_invokevirtual S (Or.inl (by assumption))
    | exact shape_invokevirtual S (Or.inr (by assumption))
    | exact shape_invokespecial S (by assumption)
    | exact shape_invokestatic S (by assumption)
    | exact shape_invokevirtualQuick S (Or.inl (by assumption))
    | exact shape_invokevirtualQuick S (Or.inr (by assumption))
    | exact shape_invokespecialQuick S (by assumption)
    | exact shape_invokestaticQuick S (by assumption)
    | exact .ret (by simp only [*]; decide)
    | exact shape_athrow S
    | skip
  -- what is left are the arithmetic group and the conditional branches
  split
  · exact shape_put (S.refl m) _
  · exact shape_raise S (S.refl m) _ _
  · split
    · exact shape_jump S (S.refl m) _
    · exact shape_next (S.refl m) rfl rfl rfl rfl rfl

end Handlers

end B2Compiler.Interp
