import B2Compiler.Interp.Served
import B2Compiler.Interp.FieldRegistry

/-!
# Inline caches against resolution

Field accesses and unquickened virtual calls keep their cache entry under their pc, quickened
virtual calls under their immediate, all in one table per method, and a hit looks at nothing
but the entry.  Over every state an interpreter can reach a hit answers what resolution with
cold caches would answer, with three exceptions the design accepts: a quickened call whose
immediate is the pc of another kind of site, a receiver whose class has a builtin of the
called name, and class names with the separator of the field keys in them.
-/

namespace B2Compiler.Interp

open Rbc List

/-! ## The law -/

def Machine.cold (m : Machine) : Machine := { m with siteICs := [] }

def isFieldOp (op : Op) : Bool := op == .getfield || op == .putfield

def isVirtualOp (op : Op) : Bool := op == .invokevirtual || op == .invokeinterface

def isQuickVirtualOp (op : Op) : Bool := op == .invokevirtualQuick || op == .invokeinterfaceQuick

theorem isVirtualOp_of_field {op : Op} (h : isFieldOp op = true) : isVirtualOp op = false := by
  have hop : op = .getfield ∨ op = .putfield := by simpa [isFieldOp] using h
  rcases hop with rfl | rfl <;> rfl

/-- The cache site of a virtual call. -/
def callSite (f : Frame) (ins : Ins) : Option Nat :=
  if isVirtualOp ins.op then some f.pc
  else if isQuickVirtualOp ins.op then some ins.immIdx
  else none

/-- Has the class of the receiver a builtin of the name the call names? -/
def builtinReceiver (E : Env) (m : Machine) (f : Frame) (ins : Ins) : Bool :=
  let ref := poolAt E f ins.immIdx
  m.rt.lookupBuiltinVirtual (m.rt.heap.classOf (f.reg ins.aReg).asObj) ref.str2 ref.str3 != .none

/-- A field access uses the slot it would use with cold caches. -/
def SlotTransparent (E : Env) (m : Machine) (f : Frame) (ins : Ins) : Prop :=
  isFieldOp ins.op = true → (fieldSlot E m f ins).1 = (fieldSlot E m.cold f ins).1

/-- A virtual call that hits goes where it would go with cold caches. -/
def TargetTransparent (E : Env) (m : Machine) (f : Frame) (ins : Ins) : Prop :=
  ∀ site t, callSite f ins = some site →
    virtualTarget E m f.method site (f.reg ins.aReg) (poolAt E f ins.immIdx) = .cached t →
    virtualTarget E m.cold f.method site (f.reg ins.aReg) (poolAt E f ins.immIdx) = .resolved t

def Flow.cold : Flow → Flow
  | .running m => .running m.cold
  | .ended status m => .ended status m.cold
  | .undefined => .undefined

/-- The other accesses and calls, and the quickened forms that carry what they need. -/
def isDirectOp (op : Op) : Bool :=
  [.getstatic, .putstatic, .invokespecial, .invokestatic, .getfieldQuick, .putfieldQuick,
    .invokespecialQuick, .invokestaticQuick].contains op

/-- Those do not look at the caches at all. -/
def DirectTransparent (E : Env) (m : Machine) (f : Frame) (ins : Ins) : Prop :=
  isDirectOp ins.op = true → exec E m.cold f ins = (exec E m f ins).cold

/-- The instruction a flow is about to execute sees nothing of the caches but their speed. -/
def FlowTransparent (E : Env) : Flow → Prop
  | .running m => ∀ f rest ins, m.frames = f :: rest → fetch E f = some ins →
      SlotTransparent E m f ins ∧ TargetTransparent E m f ins ∧ DirectTransparent E m f ins
  | _ => True

/-- The immediate of a quickened virtual call is not the pc of a field access, nor of a
virtual call that goes elsewhere; the pin of the quickened forms, that it is the call's own
pc, is one way to meet this. -/
def quickSiteOk (p : Program) (meth : Method) (ins : Ins) : Bool :=
  !isQuickVirtualOp ins.op ||
    match meth.code[ins.immIdx]? with
    | some other =>
      !isFieldOp other.op && (!isVirtualOp other.op ||
          Runtime.resolveMethod p (meth.cp.getD other.immIdx {}) ==
            Runtime.resolveMethod p (meth.cp.getD ins.immIdx {}))
    | none => true

/-- Every quickened virtual call of the program has a site of its own. -/
def QuickSites (p : Program) : Prop := ∀ meth ∈ p.methods, meth.code.all (quickSiteOk p meth) = true

/-! ## The invariant -/

/-- Where the value of a cache entry comes from. -/
inductive Filled (E : Env) (rt : Runtime) (mIdx site x : Nat) : Prop where
  | field (ins : Ins) (hins : (Runtime.method E.program mIdx).code[site]? = some ins)
      (hop : isFieldOp ins.op = true)
      (hat : rt.PlainNames → rt.FieldAt ((Runtime.method E.program mIdx).cp.getD ins.immIdx {}) x)
  | virtual (ins : Ins) (hins : (Runtime.method E.program mIdx).code[site]? = some ins)
      (hop : isVirtualOp ins.op = true)
      (hres : Runtime.resolveMethod E.program
        ((Runtime.method E.program mIdx).cp.getD ins.immIdx {}) = some x)
  | quick (ins : Ins) (hins : ins ∈ (Runtime.method E.program mIdx).code)
      (hop : isQuickVirtualOp ins.op = true) (hsite : ins.immIdx = site)
      (hres : Runtime.resolveMethod E.program
        ((Runtime.method E.program mIdx).cp.getD site {}) = some x)

/-- The registry is consistent and every valid entry has one of the origins. -/
structure CachesOk (E : Env) (rt : Runtime) (ics : List (List SiteIC)) : Prop where
  registered : rt.Registered
  filled : ∀ mIdx site e, siteIC ics mIdx site = some e → Filled E rt mIdx site e.x

section Invariant

variable {E : Env} {rt rt' : Runtime} {ics : List (List SiteIC)}

theorem CachesOk.keeps (h : CachesOk E rt ics) (hk : rt.FieldsKept rt') : CachesOk E rt' ics where
  registered := hk.registered h.registered
  filled mIdx site e he := by
    cases h.filled mIdx site e he with
    | field ins hins hop hat =>
      exact .field ins hins hop fun hplain =>
        hk.fieldAt _ _ h.registered hplain (hat (hk.plainNames hplain))
    | virtual ins hins hop hres => exact .virtual ins hins hop hres
    | quick ins hins hop hsite hres => exact .quick ins hins hop hsite hres

theorem getElem?_growWith {α : Type} (l : List α) (n i : Nat) (d : α) :
    (growWith l n d)[i]? = if i < l.length then l[i]? else if i < n then some d else none := by
  unfold growWith
  rw [getElem?_append]
  split
  · rfl
  · rw [getElem?_replicate]
    by_cases hi : i < n
    · rw [if_pos (by omega), if_pos hi]
    · rw [if_neg (by omega), if_neg hi]

theorem getD_growWith {α : Type} (l : List α) (n i : Nat) (d : α) :
    (growWith l n d).getD i d = l.getD i d := by
  rw [getD_eq_getElem?_getD, getD_eq_getElem?_getD, getElem?_growWith]
  split
  · rfl
  · rename_i hi
    rw [getElem?_eq_none (by omega : l.length ≤ i)]
    split <;> rfl

/-- A table is grown up to an entry that is then changed; the others stay. -/
theorem getD_modify_growWith {α : Type} (l : List α) (k i : Nat) (d : α) (g : α → α) :
    ((growWith l (k + 1) d).modify k g).getD i d =
      if i = k then g (l.getD k d) else l.getD i d := by
  rw [getD_eq_getElem?_getD, getElem?_modify]
  by_cases hi : i = k
  · subst hi
    have hlt : i < (growWith l (i + 1) d).length := by
      simp only [growWith, length_append, length_replicate]
      omega
    have hget : (growWith l (i + 1) d)[i]? = some (l.getD i d) := by
      rw [← getD_growWith l (i + 1) i d, getD_eq_getElem?_getD, getElem?_eq_getElem hlt]
      rfl
    rw [if_pos rfl, hget]
    simp
  · rw [if_neg hi, ← getD_growWith l (k + 1) i d, getD_eq_getElem?_getD]
    simp [Ne.symm hi]

theorem getD_fillSiteIC (ics : List (List SiteIC)) (mIdx site x y i : Nat) :
    (fillSiteIC ics mIdx site x y).getD i [] =
      if i = mIdx then (growWith (ics.getD mIdx []) (site + 1) {}).set site ⟨x, y, true⟩
      else ics.getD i [] :=
  getD_modify_growWith ics mIdx i [] _

theorem siteIC_fillSiteIC (ics : List (List SiteIC)) (mIdx site x y i j : Nat) :
    siteIC (fillSiteIC ics mIdx site x y) i j =
      if i = mIdx ∧ j = site then some ⟨x, y, true⟩ else siteIC ics i j := by
  unfold siteIC
  rw [getD_fillSiteIC]
  by_cases hi : i = mIdx
  · subst hi
    rw [if_pos rfl]
    generalize ics.getD i [] = perMethod
    by_cases hj : j = site
    · subst hj
      have hlt : j < (growWith perMethod (j + 1) {}).length := by
        simp only [growWith, length_append, length_replicate]
        omega
      rw [getElem?_set_self hlt, if_pos ⟨rfl, rfl⟩]
      rfl
    · rw [getElem?_set_ne (Ne.symm hj), if_neg (fun h => hj h.2), getElem?_growWith]
      by_cases hlt : j < perMethod.length
      · rw [if_pos hlt]
      -- a default entry of the grown table is not valid
      rw [if_neg hlt, getElem?_eq_none (by omega : perMethod.length ≤ j)]
      by_cases hgrown : j < site + 1
      · rw [if_pos hgrown]
        rfl
      · rw [if_neg hgrown]
  · rw [if_neg hi, if_neg (fun h => hi h.1)]

theorem CachesOk.fill {mIdx site x y : Nat} (h : CachesOk E rt ics)
    (hfilled : Filled E rt mIdx site x) : CachesOk E rt (fillSiteIC ics mIdx site x y) where
  registered := h.registered
  filled i j e he := by
    rw [siteIC_fillSiteIC] at he
    split at he
    · rename_i hij
      cases he
      rw [hij.1, hij.2]
      exact hfilled
    · exact h.filled i j e he

/-! ## One trip -/

/-- What a handler does to a machine keeps its caches in order. -/
def Warm (E : Env) (m m₁ : Machine) : Prop :=
  CachesOk E m.rt m.siteICs → CachesOk E m₁.rt m₁.siteICs

theorem warm_of_kept {m m₁ : Machine} (hk : m.rt.FieldsKept m₁.rt)
    (hics : m₁.siteICs = m.siteICs) : Warm E m m₁ := by
  intro h
  rw [hics]
  exact h.keeps hk

theorem services_warm {f : Frame} {ins : Ins} (hins : fetch E f = some ins) :
    Services E f ins (Warm E) where
  refl _ h := h
  trans h h' hok := h' (h hok)
  count m g := by
    refine warm_of_kept ?_ (Machine.count_siteICs m E.cfg g)
    rw [Machine.count_rt]
    exact .refl m.rt
  trace _ _ h := h
  record _ h := h
  classId m n := warm_of_kept (Runtime.fieldsKept_classId m.rt n) rfl
  resolveField m c := warm_of_kept (Runtime.fieldsKept_resolveField m.rt c) rfl
  internString m s := warm_of_kept (Runtime.fieldsKept_primitives.internString m.rt s) rfl
  classObject m cls := warm_of_kept (Runtime.fieldsKept_primitives.classObject m.rt cls) rfl
  newInstance m cls := warm_of_kept (Runtime.fieldsKept_primitives.newInstance m.rt cls) rfl
  newArray m atype n := warm_of_kept (Runtime.fieldsKept_primitives.newArray m.rt atype n) rfl
  newRefArray m cls n := warm_of_kept (Runtime.fieldsKept_primitives.newRefArray m.rt cls n) rfl
  newMultiArray m cls dims :=
    warm_of_kept (Runtime.fieldsKept_primitives.newMultiArray m.rt cls dims) rfl
  makeException m cls msg :=
    warm_of_kept (Runtime.fieldsKept_primitives.makeException m.rt cls msg) rfl
  execBuiltin h := warm_of_kept (Runtime.fieldsKept_primitives.execBuiltin h) rfl
  bumpBackedge m id := warm_of_kept (Runtime.fieldsKept_primitives.bumpBackedge m.rt id) rfl
  storeStatic m id v := warm_of_kept (Runtime.fieldsKept_primitives.storeStatic m.rt id v) rfl
  loadField m _ _ := warm_of_kept (Runtime.fieldsKept_heap m.rt _) rfl
  storeField _ := warm_of_kept (Runtime.fieldsKept_heap _ _) rfl
  storeElem _ := warm_of_kept (Runtime.fieldsKept_heap _ _) rfl
  fillField := by
    intro m rf rt hop hres hok
    have hkept := Runtime.fieldsKept_resolveField m.rt (poolAt E f ins.immIdx)
    rw [hres] at hkept
    refine (hok.keeps hkept).fill (.field ins hins ?_ ?_)
    · rcases hop with hop | hop <;> rw [hop] <;> rfl
    · intro hplain
      exact Runtime.fieldAt_resolveField hok.registered hplain hres
  fillCall := by
    intro m site t hsite htarget hok
    have hres : Runtime.resolveMethod E.program (poolAt E f ins.immIdx) = some t := by
      unfold virtualTarget at htarget
      split at htarget
      · cases htarget
      split at htarget
      · split at htarget
        · rename_i heq
          cases htarget
          exact heq
        · cases htarget
      · cases htarget
    rcases hsite with ⟨rfl, hop⟩ | ⟨rfl, hop⟩
    · refine hok.fill (.virtual ins hins ?_ hres)
      rcases hop with hop | hop <;> rw [hop] <;> rfl
    · refine hok.fill (.quick ins (mem_of_getElem? hins) ?_ rfl hres)
      rcases hop with hop | hop <;> rw [hop] <;> rfl

/-- The invariant of a flow. -/
def FlowCaches (E : Env) : Flow → Prop
  | .running m | .ended _ m => CachesOk E m.rt m.siteICs
  | .undefined => True

theorem FlowCaches.finish {flow : Flow} (h : FlowCaches E flow) : FlowCaches E flow.finish := by
  cases flow with
  | running m | ended status m => exact h
  | undefined => trivial

theorem FlowCaches.record {flow : Flow} (h : FlowCaches E flow) (mIdx site : Nat)
    (kind : DispatchSiteKind) (r t : Nat) :
    FlowCaches E (flow.map (recordDispatch mIdx site kind r t)) := by
  cases flow with
  | running m | ended status m => exact h
  | undefined => trivial

theorem fieldsKept_unwind (p : Program) (exc : Nat) (frames : List Frame) (rt : Runtime) :
    rt.FieldsKept (unwind p exc frames rt).2 :=
  unwind_within Runtime.fieldsKept_primitives (fun _ _ => Runtime.fieldsKept_heap _ _) p exc
    frames rt

variable {m : Machine}

section

variable (h : CachesOk E m.rt m.siteICs)
include h

theorem cachesOk_count (cfg : InterpConfig) (g : InterpStats → InterpStats) :
    CachesOk E (m.count cfg g).rt (m.count cfg g).siteICs := by
  rw [Machine.count_rt, Machine.count_siteICs]
  exact h

theorem flowCaches_throw (exc : Nat) : FlowCaches E (throwException E m exc) := by
  have hcount := cachesOk_count h E.cfg fun s => { s with exceptions := s.exceptions + 1 }
  unfold throwException
  dsimp only
  generalize m.count E.cfg (fun s => { s with exceptions := s.exceptions + 1 }) = m₁ at hcount
  have hunwound := hcount.keeps (fieldsKept_unwind E.program exc m₁.frames m₁.rt)
  split
  all_goals
    rename_i heq
    rw [heq] at hunwound
    exact hunwound

theorem flowCaches_raise (cls msg : String) : FlowCaches E (raise E m cls msg) :=
  flowCaches_throw (m := { m with rt := (m.rt.makeException cls msg).2 })
    (h.keeps (Runtime.fieldsKept_primitives.makeException m.rt cls msg)) _

theorem flowCaches_pushCall {f : Frame} {call : Ins} {t : Nat} :
    FlowCaches E (pushCall E m f call t) := by
  unfold pushCall
  dsimp only
  split
  · exact flowCaches_raise h _ _
  · split
    · exact flowCaches_raise h _ _
    · refine CachesOk.keeps ?_ (Runtime.fieldsKept_primitives.bumpInvocations _ t)
      apply cachesOk_count
      exact h

end

theorem fieldsKept_markInitialized {cls : Nat} (hreg : rt.Registered)
    (hneeds : rt.needsInit E.program cls = true) : rt.FieldsKept (rt.markInitialized cls) := by
  obtain ⟨⟨ci, hci, hname⟩, _⟩ := (Runtime.needsInit_iff hreg).mp hneeds
  obtain ⟨hmarked, _, hnames⟩ := Runtime.markInitialized_spec hreg hci hname
  exact .of_table (fun _ => hmarked) hnames rfl rfl

section

variable (h : CachesOk E m.rt m.siteICs)
include h

theorem flowCaches_pushClinit {f : Frame} {cls : Nat}
    (hneeds : m.rt.needsInit E.program cls = true) : FlowCaches E (pushClinit E m f cls) := by
  have hmarked := h.keeps (fieldsKept_markInitialized h.registered hneeds)
  unfold pushClinit
  dsimp only
  split
  · exact flowCaches_raise (m := { m with rt := m.rt.markInitialized cls }) hmarked _ _
  · refine CachesOk.keeps ?_ (Runtime.fieldsKept_primitives.bumpInvocations _ _)
    apply cachesOk_count
    exact hmarked

theorem flowCaches_exec {f : Frame} {ins : Ins}
    (hins : fetch E f = some ins) : FlowCaches E (exec E m f ins) := by
  have hshape : Shape E (Warm E) m f ins (exec E m f ins) := shape_exec (services_warm hins)
  generalize exec E m f ins = flow at hshape
  cases hshape with
  | stay hwarm _ _ _ => exact hwarm h
  | enter _ _ | exit _ _ => exact h.keeps (Runtime.fieldsKept_heap m.rt _)
  | init hwarm _ hneeds _ => exact flowCaches_pushClinit (hwarm h) hneeds
  | call hwarm _ => exact (flowCaches_pushCall (hwarm h)).record ..
  | throws hwarm => exact flowCaches_throw (hwarm h) _
  | ret _ =>
    have hreleased := h.keeps (Runtime.fieldsKept_heap m.rt (releaseMonitorsLIFO m.rt.heap f))
    unfold execReturn
    dsimp only
    split
    · exact hreleased
    · exact hreleased
  | undefined => trivial

theorem flowCaches_step : FlowCaches E (step E m) := by
  unfold step
  split
  · trivial
  · split
    · exact flowCaches_raise h _ _
    · rename_i hins
      exact flowCaches_exec (cachesOk_count h E.cfg _) hins

/-! ## The start of a call -/

theorem flowCaches_refuse (cls msg : String) : FlowCaches E (refuse E m cls msg) :=
  cachesOk_count (m := { m with rt := (m.rt.makeException cls msg).2, exception := _ })
    (h.keeps (Runtime.fieldsKept_primitives.makeException m.rt cls msg)) _ _

theorem flowCaches_enterLoop : FlowCaches E (enterLoop E m) := by
  have hprogram : CachesOk E (internProgram E m).rt (internProgram E m).siteICs :=
    h.keeps (Runtime.fieldsKept_classId m.rt E.program.className)
  unfold enterLoop
  dsimp only
  split
  · split
    · exact flowCaches_throw (m := (internProgram E m).setTop _) hprogram _
    · exact hprogram
  · exact hprogram

end

theorem fieldsKept_entryLock (entry : Method) (args : List Value) (rt : Runtime) :
    rt.FieldsKept (entryLock E entry args rt).2 := by
  refine entryLock_within Runtime.fieldsKept_primitives (fun obj rt => ?_) entry args rt
  unfold lockObject
  split <;> exact Runtime.fieldsKept_heap _ _

/-- Every call begins with the caches in order. -/
theorem flowCaches_start {I : Interpreter} (h : CachesOk E I.rt I.siteICs) (c : Call) :
    FlowCaches E (c.start E I) := by
  have hloop : ∀ {rt : Runtime} {frames : List Frame}, CachesOk E rt I.siteICs →
      FlowCaches E (enterLoop E { I.machine with rt, frames }) := by
    intro rt frames hok
    exact flowCaches_enterLoop (m := { I.machine with rt, frames }) hok
  obtain ⟨flow, hstart, hcases⟩ := started_start (E := E) (I := I) c
  rw [hstart]
  apply FlowCaches.finish
  cases hcases with
  | rejected => exact h
  | refused => exact flowCaches_refuse (m := I.machine) h _ _
  | @unlocked _ _ _ args id rt hlock =>
    have hlocked := h.keeps (fieldsKept_entryLock (E := E) (Runtime.method E.program id) args I.rt)
    rw [hlock] at hlocked
    exact flowCaches_refuse (m := { I.machine with rt }) hlocked _ _
  | run _ _ _ => exact hloop (h.keeps (Runtime.fieldsKept_primitives.bumpInvocations _ _))
  | @runLocked _ _ args id lock rt _ _ hlock =>
    have hlocked := h.keeps (fieldsKept_entryLock (E := E) (Runtime.method E.program id) args I.rt)
    rw [hlock] at hlocked
    exact hloop (hlocked.keeps (Runtime.fieldsKept_primitives.bumpInvocations _ id))
  | resume _ _ => exact hloop h

theorem flowCaches_callAt {I : Interpreter} (h : CachesOk E I.rt I.siteICs) (c : Call) (n : Nat) :
    FlowCaches E (callAt E I c n) :=
  callAt_induct (flowCaches_start h c) (fun _ _ _ ih => (flowCaches_step ih).finish) n

theorem Served.cachesOk {I : Interpreter} (h : Served E I) : CachesOk E I.rt I.siteICs := by
  induction h with
  | new =>
    refine ⟨(Runtime.init_spec E.program E.program.className).1, ?_⟩
    intro mIdx site e he
    cases he
  | @call I c n status m _ hend ih =>
    have hflow := flowCaches_callAt ih c n
    rw [hend] at hflow
    exact hflow

/-! ## A hit answers as resolution does -/

theorem method_mem_of_code {mIdx : Nat} {ins : Ins}
    (h : ins ∈ (Runtime.method E.program mIdx).code) :
    Runtime.method E.program mIdx ∈ E.program.methods := by
  unfold Runtime.method at h ⊢
  rw [getD_eq_getElem?_getD] at h ⊢
  cases hm : E.program.methods[mIdx]? with
  | some meth => exact mem_of_getElem? hm
  | none =>
    rw [hm] at h
    cases h

theorem quickSite_spec {mIdx : Nat} {ins other : Ins} (hsites : QuickSites E.program)
    (hins : ins ∈ (Runtime.method E.program mIdx).code)
    (hop : isQuickVirtualOp ins.op = true)
    (hother : (Runtime.method E.program mIdx).code[ins.immIdx]? = some other) :
    isFieldOp other.op = false ∧ (isVirtualOp other.op = true → Runtime.resolveMethod E.program
            ((Runtime.method E.program mIdx).cp.getD other.immIdx {}) =
          Runtime.resolveMethod E.program
            ((Runtime.method E.program mIdx).cp.getD ins.immIdx {})) := by
  have hok := all_eq_true.mp (hsites _ (method_mem_of_code hins)) ins hins
  unfold quickSiteOk at hok
  rw [hop, hother] at hok
  simp only [Bool.not_true, Bool.false_or, Bool.and_eq_true, Bool.not_eq_true'] at hok
  refine ⟨hok.1, fun hvirtual => ?_⟩
  have hres := hok.2
  rw [hvirtual] at hres
  simpa using hres

theorem fieldSlot_miss {f : Frame} {ins : Ins} (h : siteIC m.siteICs f.method f.pc = none) :
    (fieldSlot E m f ins).1 =
      (m.rt.resolveField (poolAt E f ins.immIdx)).1.map ResolvedField.slot := by
  unfold fieldSlot
  rw [h]
  dsimp only
  rw [Machine.count_rt]
  split
  all_goals
    rename_i heq
    rw [heq]
    rfl

section

variable {f : Frame} {ins : Ins} (hsites : QuickSites E.program) (h : CachesOk E m.rt m.siteICs)
  (hins : fetch E f = some ins)
include hsites h hins

theorem slotTransparent (hplain : m.rt.PlainNames) : SlotTransparent E m f ins := by
  intro hop
  have hcold : (fieldSlot E m.cold f ins).1 =
      (m.rt.resolveField (poolAt E f ins.immIdx)).1.map ResolvedField.slot :=
    fieldSlot_miss (m := m.cold) rfl
  rw [hcold]
  cases he : siteIC m.siteICs f.method f.pc with
  | none => exact fieldSlot_miss he
  | some e =>
    have hhit : (fieldSlot E m f ins).1 = some e.x := by
      unfold fieldSlot
      rw [he]
    rw [hhit]
    cases h.filled _ _ e he with
    | field ins' hins' _ hat =>
      cases hins.symm.trans hins'
      exact (Runtime.resolveField_of_fieldAt (hat hplain)).symm
    | virtual ins' hins' hop' _ =>
      cases hins.symm.trans hins'
      rw [isVirtualOp_of_field hop] at hop'
      cases hop'
    | quick ins' hmem hop' hsite _ =>
      have hother : (Runtime.method E.program f.method).code[ins'.immIdx]? = some ins := by
        rw [hsite]
        exact hins
      have hnot := (quickSite_spec hsites hmem hop' hother).1
      rw [hop] at hnot
      cases hnot

theorem resolveMethod_of_hit {site : Nat} {e : SiteIC} (hsite : callSite f ins = some site)
    (he : siteIC m.siteICs f.method site = some e) :
    Runtime.resolveMethod E.program (poolAt E f ins.immIdx) = some e.x := by
  have hmem : ins ∈ (Runtime.method E.program f.method).code := mem_of_getElem? hins
  unfold callSite at hsite
  split at hsite
  · rename_i hvirtual
    cases hsite
    cases h.filled _ _ e he with
    | field ins' hins' hop' _ =>
      cases hins.symm.trans hins'
      rw [isVirtualOp_of_field hop'] at hvirtual
      cases hvirtual
    | virtual ins' hins' _ hres =>
      cases hins.symm.trans hins'
      exact hres
    | quick ins' hmem' hop' hpc hres =>
      have hother : (Runtime.method E.program f.method).code[ins'.immIdx]? = some ins := by
        rw [hpc]
        exact hins
      have hsame := (quickSite_spec hsites hmem' hop' hother).2 hvirtual
      rw [hpc] at hsame
      exact hsame.trans hres
  · split at hsite
    · rename_i hquick
      cases hsite
      cases h.filled _ _ e he with
      | field ins' hins' hop' _ =>
        have hnot := (quickSite_spec hsites hmem hquick hins').1
        rw [hop'] at hnot
        cases hnot
      | virtual ins' hins' hop' hres =>
        exact ((quickSite_spec hsites hmem hquick hins').2 hop').symm.trans hres
      | quick _ _ _ _ hres => exact hres
    · cases hsite

theorem targetTransparent
    (hrecv : builtinReceiver E m f ins = false) : TargetTransparent E m f ins := by
  intro site t hsite hcached
  have hentry : ∃ e, siteIC m.siteICs f.method site = some e ∧ e.x = t := by
    unfold virtualTarget at hcached
    split at hcached
    · rename_i e he
      cases hcached
      exact ⟨e, he, rfl⟩
    · split at hcached
      · split at hcached <;> cases hcached
      · cases hcached
  obtain ⟨e, he, rfl⟩ := hentry
  have hres := resolveMethod_of_hit hsites h hins hsite he
  have hbuiltin : m.rt.lookupBuiltinVirtual (m.rt.heap.classOf (f.reg ins.aReg).asObj)
      (poolAt E f ins.immIdx).str2 (poolAt E f ins.immIdx).str3 = .none := by
    simpa [builtinReceiver] using hrecv
  unfold virtualTarget Machine.cold
  dsimp only
  rw [show siteIC [] f.method site = none from rfl]
  dsimp only
  rw [hbuiltin, hres]

end

/-! ## Direct accesses -/

theorem cold_count (m : Machine) (cfg : InterpConfig) (g : InterpStats → InterpStats) :
    m.cold.count cfg g = (m.count cfg g).cold := by
  unfold Machine.count
  split <;> rfl

theorem throw_cold (m : Machine) (exc : Nat) :
    throwException E m.cold exc = (throwException E m exc).cold := by
  unfold throwException
  dsimp only
  rw [cold_count]
  generalize m.count E.cfg (fun s => { s with exceptions := s.exceptions + 1 }) = m₁
  rw [show m₁.cold.frames = m₁.frames from rfl, show m₁.cold.rt = m₁.rt from rfl]
  generalize unwind E.program exc m₁.frames m₁.rt = unwound
  obtain ⟨frames, rt⟩ := unwound
  cases frames <;> rfl

theorem raise_cold (m : Machine) (cls msg : String) :
    raise E m.cold cls msg = (raise E m cls msg).cold :=
  throw_cold { m with rt := (m.rt.makeException cls msg).2 } (m.rt.makeException cls msg).1

theorem pushCall_cold (m : Machine) (f : Frame) (call : Ins) (t : Nat) :
    pushCall E m.cold f call t = (pushCall E m f call t).cold := by
  unfold pushCall
  dsimp only
  split
  · exact raise_cold m _ _
  · show (if E.cfg.maxFrames ≤ m.frames.length then _ else _) = _
    split
    · exact raise_cold m _ _
    · unfold Machine.count
      split <;> rfl

theorem callStatic_cold (m : Machine) (f : Frame) (ins : Ins) (t : Nat) :
    callStatic E m.cold f ins t = (callStatic E m f ins t).cold := by
  unfold callStatic
  rw [pushCall_cold]
  cases pushCall E m f ins t <;> rfl

theorem initClassIfNeeded_cold (m : Machine) (f : Frame) (cls : Nat) :
    initClassIfNeeded E m.cold f cls = (initClassIfNeeded E m f cls).map Flow.cold := by
  unfold initClassIfNeeded
  show (if m.rt.needsInit E.program cls = true then _ else _) = _
  split
  · show some _ = some _
    unfold pushClinit
    dsimp only
    show some (if E.cfg.maxFrames ≤ m.frames.length then _ else _) = _
    split
    · exact congrArg some (raise_cold { m with rt := m.rt.markInitialized cls } _ _)
    · unfold Machine.count
      split <;> rfl
  · rfl

theorem probe_cold {m : Machine} {f : Frame} {cls : Nat} {cont cont' : Flow}
    (hcont : cont' = cont.cold) :
    (match initClassIfNeeded E m.cold f cls with
      | some flow => flow
      | none => cont') =
    (match initClassIfNeeded E m f cls with
      | some flow => flow
      | none => cont).cold := by
  rw [initClassIfNeeded_cold]
  cases initClassIfNeeded E m f cls with
  | none => exact hcont
  | some flow => rfl

theorem withStatic_cold {f : Frame} {c : Const} {access : Machine → ResolvedField → Flow}
    (haccess : ∀ m rf, access m.cold rf = (access m rf).cold) (m : Machine) :
    withStatic E m.cold f c access = (withStatic E m f c access).cold := by
  unfold withStatic
  rw [show m.cold.rt = m.rt from rfl]
  generalize m.rt.resolveField c = resolved
  obtain ⟨rf, rt⟩ := resolved
  cases rf with
  | none => exact raise_cold { m with rt } _ _
  | some rf => exact probe_cold (m := { m with rt }) (haccess { m with rt } rf)

theorem loadStatic_cold (f : Frame) (ins : Ins) (m : Machine) (rf : ResolvedField) :
    loadStatic E f ins m.cold rf = (loadStatic E f ins m rf).cold := by
  unfold loadStatic
  rw [show m.cold.rt = m.rt from rfl]
  dsimp only
  split
  · split
    · exact raise_cold m _ _
    · rfl
  · rfl

theorem storeSlot_cold (m : Machine) (f : Frame) (ins : Ins) (slot : Nat) :
    storeSlot E m.cold f ins slot = (storeSlot E m f ins slot).cold := by
  unfold storeSlot
  rw [show m.cold.rt = m.rt from rfl]
  cases m.rt.heap.storeField (f.reg ins.aReg).asObj slot (f.reg ins.bReg) with
  | none => exact raise_cold m _ _
  | some heap => rfl

theorem getfieldQuick_cold (m : Machine) (f : Frame) (ins : Ins) :
    execGetfieldQuick E m.cold f ins = (execGetfieldQuick E m f ins).cold := by
  unfold execGetfieldQuick
  rw [show m.cold.rt = m.rt from rfl]
  dsimp only
  generalize m.rt.heap.loadField (f.reg ins.aReg).asObj
    (Runtime.slotOfFieldOffset ins.immIdx) = loaded
  obtain ⟨v, heap⟩ := loaded
  split
  · exact raise_cold m _ _
  split
  · show (if ¬ heap.isInstance (f.reg ins.aReg).asObj then _ else _) =
      (if ¬ heap.isInstance (f.reg ins.aReg).asObj then _ else _ : Flow).cold
    split
    all_goals exact raise_cold (m.setHeap heap) _ _
  · rfl

theorem getstatic_cold (m : Machine) (f : Frame) (ins : Ins) :
    execGetstatic E m.cold f ins = (execGetstatic E m f ins).cold := by
  unfold execGetstatic
  rw [show m.cold.rt = m.rt from rfl]
  dsimp only
  cases m.rt.builtinStatic (poolAt E f ins.immIdx) with
  | some r => rfl
  | none => exact withStatic_cold (loadStatic_cold f ins) m

theorem putstatic_cold (m : Machine) (f : Frame) (ins : Ins) :
    execPutstatic E m.cold f ins = (execPutstatic E m f ins).cold := by
  unfold execPutstatic
  rw [show m.cold.rt = m.rt from rfl]
  dsimp only
  cases m.rt.builtinStatic (poolAt E f ins.immIdx) with
  | some r => exact raise_cold m _ _
  | none => exact withStatic_cold (fun _ _ => rfl) m

theorem invokespecial_cold (m : Machine) (f : Frame) (ins : Ins) :
    execInvokespecial E m.cold f ins = (execInvokespecial E m f ins).cold := by
  unfold execInvokespecial
  dsimp only
  split
  · exact raise_cold m _ _
  · cases Runtime.resolveMethod E.program (poolAt E f ins.immIdx) with
    | some t => exact callStatic_cold m f ins t
    | none => exact raise_cold m _ _

theorem invokestatic_cold (m : Machine) (f : Frame) (ins : Ins) :
    execInvokestatic E m.cold f ins = (execInvokestatic E m f ins).cold := by
  unfold execInvokestatic
  dsimp only
  cases Runtime.resolveMethod E.program (poolAt E f ins.immIdx) with
  | some t => exact probe_cold (callStatic_cold m f ins t)
  | none => exact raise_cold m _ _

/-- A direct access or call is the same with cold caches. -/
theorem directTransparent (m : Machine) (f : Frame) (ins : Ins) : DirectTransparent E m f ins := by
  intro hop
  have hops : ins.op = .getstatic ∨ ins.op = .putstatic ∨ ins.op = .invokespecial ∨
      ins.op = .invokestatic ∨ ins.op = .getfieldQuick ∨ ins.op = .putfieldQuick ∨
      ins.op = .invokespecialQuick ∨ ins.op = .invokestaticQuick := by
    simpa [isDirectOp] using hop
  unfold exec
  rcases hops with hop | hop | hop | hop | hop | hop | hop | hop <;> rw [hop] <;> dsimp only
  · exact getstatic_cold m f ins
  · exact putstatic_cold m f ins
  · exact invokespecial_cold m f ins
  · exact invokestatic_cold m f ins
  · exact getfieldQuick_cold m f ins
  · unfold execPutfieldQuick
    split
    · exact raise_cold m _ _
    · exact storeSlot_cold m f ins _
  · unfold execInvokespecialQuick
    split
    · exact raise_cold m _ _
    · split
      · exact raise_cold m _ _
      · exact callStatic_cold m f ins _
  · unfold execInvokestaticQuick
    split
    · exact raise_cold m _ _
    · exact probe_cold (callStatic_cold m f ins _)

end Invariant

/-- In every state of every call on every interpreter of a program whose quickened calls have
sites of their own, a field access uses the slot resolution answers, if no class name holds
the separator of the field keys, and a virtual call that hits goes where resolution goes, if
the receiver's class has no builtin of the called name; the direct accesses and calls see
nothing of the caches. -/
theorem hit_transparent (E : Env) (hsites : QuickSites E.program) (I : Interpreter)
    (hI : Served E I) (c : Call) (n : Nat) (m : Machine) (hm : callAt E I c n = .running m)
    (f : Frame) (ins : Ins) (hins : fetch E f = some ins) :
    (m.rt.PlainNames → SlotTransparent E m f ins) ∧
      (builtinReceiver E m f ins = false → TargetTransparent E m f ins) ∧
      DirectTransparent E m f ins := by
  have hok := flowCaches_callAt hI.cachesOk c n
  rw [hm] at hok
  exact ⟨slotTransparent hsites hok hins, targetTransparent hsites hok hins,
    directTransparent m f ins⟩

/-! ## Two receivers at one site -/

instance (p : Program) : Decidable (QuickSites p) :=
  inferInstanceAs (Decidable (∀ meth ∈ p.methods, meth.code.all (quickSiteOk p meth) = true))

instance (rt : Runtime) : Decidable rt.PlainNames :=
  inferInstanceAs (Decidable (∀ ci ∈ rt.classes, plainName ci.name = true))

/-- What a flow is about to execute, and in which frame. -/
def Flow.upcoming (E : Env) : Flow → Option (Machine × Frame × Ins)
  | .running m =>
    match m.frames with
    | f :: _ => (fetch E f).map fun ins => (m, f, ins)
    | [] => none
  | _ => none

theorem running_of_upcoming {E : Env} {flow : Flow} {m : Machine} {f : Frame} {ins : Ins}
    (h : flow.upcoming E = some (m, f, ins)) :
    flow = .running m ∧ (∃ rest, m.frames = f :: rest) ∧ fetch E f = some ins := by
  cases flow with
  | running m' =>
    unfold Flow.upcoming at h
    dsimp only at h
    split at h
    · rename_i g rest hframes
      rw [Option.map_eq_some_iff] at h
      obtain ⟨ins', hins, heq⟩ := h
      cases heq
      exact ⟨rfl, ⟨rest, hframes⟩, hins⟩
    · cases h
  | ended status m | undefined => cases h

/-- Where the call at the site of a frame's pc goes, with the caches and with cold ones. -/
def targets (E : Env) (next : Machine × Frame × Ins) : VirtualTarget × VirtualTarget :=
  let (m, f, ins) := next
  let ref := poolAt E f ins.immIdx
  (virtualTarget E m f.method f.pc (f.reg ins.aReg) ref,
    virtualTarget E m.cold f.method f.pc (f.reg ins.aReg) ref)

/-- `void println() { }`. -/
def ownPrintln : Method where
  name := "println"
  numLocals := 1
  code := [⟨.returnVoid, 0, 0, 0, 0⟩]

/-- `static void main() { r0 = new Main(); r1 = System.out; for (;;) { r0.println(); … } }`,
with one instruction between two calls. -/
def mainPrintln (between : Ins) : Method where
  name := "main"
  flags := 0x0008
  numRegs := 2
  code := [⟨.new, 0, 0, 0, 0⟩, ⟨.getstatic, 1, 0, 0, 1⟩, ⟨.invokevirtual, 0, 0, 1, 2⟩, between,
    ⟨.goto, 0, 0, 0, 2⟩]
  cp := [{ kind := .klass, str := "Main" },
    { kind := .fieldRef, str := "java/lang/System", str2 := "out",
      str3 := "Ljava/io/PrintStream;" },
    { kind := .methodRef, str := "Main", str2 := "println", str3 := "()V" }]

/-- The receiver stays the same. -/
def sameReceiver : Env where
  program := { methods := [mainPrintln ⟨.nop, 0, 0, 0, 0⟩, ownPrintln] }
  host := default

/-- The second call finds the print stream in the register. -/
def streamReceiver : Env where
  program := { methods := [mainPrintln ⟨.amove, 0, 1, 0, 0⟩, ownPrintln] }
  host := default

theorem sameReceiver_transparent : ∃ m f rest ins,
      callAt sameReceiver (.new sameReceiver.program) (.run "main" "()V" []) 6 = .running m ∧
      m.frames = f :: rest ∧ fetch sameReceiver f = some ins ∧
      (targets sameReceiver (m, f, ins)).1 = .cached 1 ∧ m.rt.PlainNames ∧
      builtinReceiver sameReceiver m f ins = false ∧ SlotTransparent sameReceiver m f ins ∧
      TargetTransparent sameReceiver m f ins ∧ DirectTransparent sameReceiver m f ins := by
  have hcheck : ((callAt sameReceiver (.new sameReceiver.program)
      (.run "main" "()V" []) 6).upcoming sameReceiver).any (fun next =>
        (targets sameReceiver next).1 == .cached 1 && decide next.1.rt.PlainNames &&
          !builtinReceiver sameReceiver next.1 next.2.1 next.2.2) = true := by
    decide +kernel
  rw [Option.any_eq_true] at hcheck
  obtain ⟨⟨m, f, ins⟩, hnext, hpremises⟩ := hcheck
  obtain ⟨hm, ⟨rest, hf⟩, hins⟩ := running_of_upcoming hnext
  simp only [Bool.and_eq_true, beq_iff_eq, decide_eq_true_eq, Bool.not_eq_true'] at hpremises
  obtain ⟨⟨hcached, hplain⟩, hrecv⟩ := hpremises
  obtain ⟨hslot, htarget, hdirect⟩ := hit_transparent sameReceiver (by decide +kernel) _ .new _ 6
    m hm f ins hins
  exact ⟨m, f, rest, ins, hm, hf, hins, hcached, hplain, hrecv, hslot hplain, htarget hrecv,
    hdirect⟩

/-- The hit goes to the method of the first receiver's class, resolution to the builtin. -/
theorem not_transparent_streamReceiver :
    ¬ FlowTransparent streamReceiver (callAt streamReceiver (.new streamReceiver.program)
      (.run "main" "()V" []) 6) := by
  intro h
  have hcheck : ((callAt streamReceiver (.new streamReceiver.program)
      (.run "main" "()V" []) 6).upcoming streamReceiver).any (fun next =>
        targets streamReceiver next == (.cached 1, .builtin .println) &&
          callSite next.2.1 next.2.2 == some next.2.1.pc) = true := by
    decide +kernel
  rw [Option.any_eq_true] at hcheck
  obtain ⟨⟨m, f, ins⟩, hnext, htargets⟩ := hcheck
  obtain ⟨hm, ⟨rest, hf⟩, hins⟩ := running_of_upcoming hnext
  rw [hm] at h
  simp only [Bool.and_eq_true, beq_iff_eq, targets, Prod.mk.injEq] at htargets
  obtain ⟨⟨hhot, hcold⟩, hsite⟩ := htargets
  have hsame := (h f rest ins hf hins).2.1 f.pc 1 hsite hhot
  rw [hcold] at hsame
  cases hsame

end B2Compiler.Interp
