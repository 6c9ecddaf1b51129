import B2Compiler.Interp.RuntimeInvariant
import B2Compiler.Interp.Synchronized

/-!
# The account of the monitors

The heap counts how often a monitor is entered, and the frames record which monitors they
entered.  An exit takes one from the heap's count also when the record of its own frame does
not have the object, and then the two part: the count is never above the records, it equals
them as long as every exit is of a monitor its own frame entered, and a run that ends leaves
every monitor free.
-/

namespace B2Compiler.Interp

open Rbc List

/-! ## The law -/

/-- State of the monitor of an object; a dead reference has a free one. -/
def Heap.monitorOf (h : Heap) (r : Nat) : MonitorState := ((h.obj r).map HeapObj.mon).getD {}

def enteredTimes (n : Nat) : MonitorState := if n = 0 then {} else ⟨kOwnerThread, n⟩

/-- No monitor of the heap is owned. -/
def AllFree (rt : Runtime) : Prop := ∀ r, rt.heap.monitorOf r = {}

/-- Every monitor was entered as often as the frames record. -/
def Accounted (rt : Runtime) (frames : List Frame) : Prop :=
  ∀ r, rt.heap.monitorOf r = enteredTimes (entries r frames)

/-- Is the machine about to leave a held monitor that its innermost frame does not record? -/
def exitsForeign (E : Env) (m : Machine) : Bool :=
  atFetch E m false fun f ins =>
    ins.op = .monitorexit && decide (0 < m.rt.heap.held (f.reg ins.aReg).asObj) &&
      !f.monitors.contains (f.reg ins.aReg).asObj

/-- Records that a call brings along. -/
def Call.records : Call → List Nat
  | .run _ _ _ => []
  | .resume frame => frame.monitors

/-- The law of a call that begins with all monitors free. -/
structure MonitorLaw (E : Env) (I : Interpreter) (c : Call) : Prop where
  /-- No monitor is entered more often than the frames record. -/
  atMost : ∀ n m, callAt E I c n = .running m →
    ∀ r, ∃ k ≤ entries r m.frames, m.rt.heap.monitorOf r = enteredTimes k
  /-- The two agree while every exit is of a monitor its own frame records. -/
  exact : c.records = [] → ∀ n,
    (∀ k < n, ∀ m, callAt E I c k = .running m → exitsForeign E m = false) →
      ∀ m, callAt E I c n = .running m → Accounted m.rt m.frames
  /-- Leaving the free monitor of an object raises, on the heap as it was. -/
  raises : ∀ n m f rest ins o, callAt E I c n = .running m → m.frames = f :: rest →
    fetch E f = some ins → ins.op = .monitorexit → (f.reg ins.aReg).isNull = false →
      m.rt.heap.obj (f.reg ins.aReg).asObj = some o → o.mon = {} →
        ∃ m', m'.rt = m.rt ∧ m'.frames = m.frames ∧ step E m = raise E m' kClsIllegalMonitor ""
  /-- A call that ended leaves every monitor free. -/
  ended : ∀ n status m, callAt E I c n = .ended status m → AllFree m.rt

/-! ## Counts -/

namespace Runtime

/-- Every monitor is free, or owned by the thread and entered at least once. -/
def Plain (rt : Runtime) : Prop :=
  ∀ r o, rt.heap.obj r = some o → o.mon = enteredTimes o.mon.count

theorem plain_setObj {rt : Runtime} (h : rt.Plain) {r : Nat} {o o' : HeapObj}
    (hobj : rt.heap.obj r = some o) (hmon : o'.mon = enteredTimes o'.mon.count) :
    ({ rt with heap := rt.heap.setObj r o' } : Runtime).Plain := by
  intro q oq hq
  have hq' : (rt.heap.setObj r o').obj q = some oq := hq
  rw [Heap.obj_setObj hobj] at hq'
  split at hq'
  · cases hq'
    exact hmon
  · exact h q oq hq'

theorem plain_alloc {rt : Runtime} (h : rt.Plain) {o : HeapObj} (hmon : o.mon = {}) :
    ({ rt with heap := (rt.heap.alloc o).2 } : Runtime).Plain := by
  intro q oq hq
  have hmem : q ≠ 0 ∧ (rt.heap.objs ++ [o])[q - 1]? = some oq := by
    have hq' : (if q = 0 then none else (rt.heap.objs ++ [o])[q - 1]?) = some oq := hq
    split at hq'
    · cases hq'
    · exact ⟨by assumption, hq'⟩
  rw [getElem?_append_one] at hmem
  obtain ⟨hzero, hget⟩ := hmem
  split at hget
  · cases hget
    rw [hmon]
    rfl
  · apply h q oq
    unfold Heap.obj
    rw [if_neg hzero]
    exact hget

theorem plain_of_eq {rt rt' : Runtime} (h : rt.Plain) (hobjs : rt'.heap.objs = rt.heap.objs) :
    rt'.Plain := by
  intro r o hobj
  apply h r o
  unfold Heap.obj at hobj ⊢
  rw [← hobjs]
  exact hobj

theorem plain_invariant : Invariant Plain where
  services :=
    { refl := fun _ h => h
      trans := fun h h' hrt => h' (h hrt)
      classId := fun rt n h => plain_of_eq h (by unfold classId; split <;> rfl)
      resolveField := fun rt c h => plain_of_eq h (by
        unfold resolveField classId
        split
        · rfl
        · dsimp only
          split <;> split <;> rfl)
      markException := fun rt cid h => plain_of_eq h (by unfold markException; split <;> rfl)
      alloc := fun _ _ hmon h => plain_alloc h hmon
      setSlots := fun _ r o _ hobj h => plain_setObj h hobj (h r o hobj)
      intern := fun _ _ h => plain_of_eq h rfl
      objects := fun _ _ _ h => plain_of_eq h rfl
      print := fun _ _ _ h => plain_of_eq h rfl
      statics := fun _ _ h => plain_of_eq h rfl
      profiles := fun _ _ h => plain_of_eq h rfl }
  mark h := plain_of_eq h rfl
  monitor := by
    intro rt r o mon hobj hmon h
    apply plain_setObj h hobj
    rcases hmon with rfl | ⟨howner, rfl⟩ | ⟨howner, hcount, rfl⟩
    · rfl
    · rw [howner, enteredTimes, if_neg (Nat.succ_ne_zero _)]
    dsimp only
    unfold enteredTimes
    split
    · rename_i hzero
      rw [hzero]
    · rw [howner]

/-- The state of a monitor says how often it is held. -/
theorem monitorOf_held {rt : Runtime} (h : rt.Plain) (r : Nat) :
    rt.heap.monitorOf r = enteredTimes (rt.heap.held r) := by
  unfold Heap.monitorOf Heap.held
  cases hobj : rt.heap.obj r with
  | none => rfl
  | some o =>
    have hmon := h r o hobj
    show o.mon = enteredTimes (if o.mon.owner = kOwnerThread then o.mon.count else 0)
    by_cases hzero : o.mon.count = 0
    · rw [hzero] at hmon ⊢
      rw [hmon]
      rfl
    · rw [enteredTimes, if_neg hzero] at hmon
      rw [hmon, if_pos rfl, enteredTimes, if_neg hzero]

theorem plain_of_allFree {rt : Runtime} (h : AllFree rt) : rt.Plain ∧ ∀ r, rt.heap.held r = 0 := by
  have hmon : ∀ r o, rt.heap.obj r = some o → o.mon = {} := by
    intro r o hobj
    have hfree := h r
    rw [Heap.monitorOf, hobj] at hfree
    exact hfree
  refine ⟨fun r o hobj => by rw [hmon r o hobj]; rfl, ?_⟩
  intro r
  unfold Heap.held
  split
  · rename_i o hobj
    rw [hmon r o hobj]
    rfl
  · rfl

end Runtime

/-! ## Tallies -/

/-- A relation between counts and records that entering and leaving in step keep. -/
structure Tally (rel : Nat → Nat → Prop) : Prop where
  zero : rel 0 0
  enter : ∀ {a b}, rel a b → rel (a + 1) (b + 1)
  leave : ∀ {a b} c, rel a (c + b) → rel (a - c) b

theorem tally_eq : Tally (· = ·) where
  zero := rfl
  enter h := by omega
  leave c h := by omega

theorem tally_le : Tally (· ≤ ·) where
  zero := Nat.le_refl 0
  enter h := by omega
  leave c h := by omega

/-- The counts of the heap are so related to the records of the frames. -/
def Tallied (rel : Nat → Nat → Prop) (rt : Runtime) (frames : List Frame) : Prop :=
  ∀ r, rel (rt.heap.held r) (entries r frames)

/-- The relation along a flow; a run that ended has no frames. -/
def FlowTallied (rel : Nat → Nat → Prop) : Flow → Prop
  | .running m => Tallied rel m.rt m.frames
  | .ended _ m => Tallied rel m.rt []
  | .undefined => True

section Trips

variable {E : Env} {rel : Nat → Nat → Prop} {m m₁ : Machine} {f g : Frame} {rest : List Frame}
  {ins : Ins} {flow : Flow} {rt rt' : Runtime} {frames : List Frame}

theorem Tallied.quiet (h : Tallied rel rt frames) (hq : rt.Quiet rt') : Tallied rel rt' frames := by
  intro r
  rw [hq.held]
  exact h r

theorem Tallied.setTop (h : Tallied rel rt (f :: rest)) (hmonitors : g.monitors = f.monitors) :
    Tallied rel rt (g :: rest) := by
  intro r
  rw [entries_cons, hmonitors, ← entries_cons]
  exact h r

theorem Tallied.push (h : Tallied rel rt frames) (hmonitors : g.monitors = []) :
    Tallied rel rt (g :: frames) := by
  intro r
  rw [entries_cons, hmonitors, count_nil, Nat.zero_add]
  exact h r

theorem FlowTallied.finish (h : FlowTallied rel flow) : FlowTallied rel flow.finish := by
  cases flow with
  | running m | ended status m => exact h
  | undefined => trivial

theorem flowTallied_of (h : FlowHolds (Tallied rel) (fun rt => Tallied rel rt []) True flow) :
    FlowTallied rel flow := by
  cases flow <;> exact h

variable (T : Tally rel)
include T

/-- A frame gives its record back when it goes. -/
theorem Tallied.pop (h : Tallied rel rt (f :: rest)) :
    Tallied rel { rt with heap := releaseMonitorsLIFO rt.heap f } rest := by
  intro r
  show rel ((releaseMonitorsLIFO rt.heap f).held r) _
  rw [releaseMonitorsLIFO, Heap.held_release_sub]
  apply T.leave
  rw [← entries_cons]
  exact h r

theorem tallied_frames :
    FrameInvariant E Runtime.Quiet (Tallied rel) fun rt => Tallied rel rt [] where
  services := Runtime.quiet_primitives
  inside _ hq h := h.quiet hq
  setTop _ hmonitors _ _ _ h := h.setTop hmonitors
  handler _ _ h := h.setTop rfl
  pop h := h.pop T
  last h := h.pop T
  none h := h

theorem tallied_enter {r : Nat} {heap : Heap} (h : Tallied rel rt (f :: rest))
    (henter : rt.heap.monitorenter r = (.none, heap)) (pc : Nat) :
    Tallied rel { rt with heap } ({ f with monitors := r :: f.monitors, pc } :: rest) := by
  intro q
  have hq := h q
  show rel (heap.held q) _
  rw [entries_cons] at hq ⊢
  show rel (heap.held q) ((r :: f.monitors).count q + entries q rest)
  rw [Heap.held_monitorenter henter, count_cons]
  by_cases hr : q = r
  · subst hr
    rw [if_pos rfl, if_pos (beq_self_eq_true q), Nat.add_right_comm]
    exact T.enter hq
  · rw [if_neg hr, if_neg (by simpa using Ne.symm hr), Nat.add_zero]
    exact hq

/-- Leaving takes from the count, and from the record if the object is in it. -/
theorem tallied_exit {r : Nat} {heap : Heap} (h : Tallied rel rt (f :: rest))
    (hexit : rt.heap.monitorexit r = (.none, heap))
    (hown : r ∈ f.monitors ∨ ∀ {a b}, rel a b → rel (a - 1) b) (pc : Nat) :
    Tallied rel { rt with heap } ({ f with monitors := f.monitors.erase r, pc } :: rest) := by
  intro q
  have hq := h q
  have hheld := Heap.held_exit rt.heap r q
  rw [hexit] at hheld
  show rel (heap.held q) _
  rw [entries_cons] at hq ⊢
  show rel (heap.held q) ((f.monitors.erase r).count q + entries q rest)
  rw [hheld]
  by_cases hr : q = r
  · subst hr
    rw [if_pos rfl]
    by_cases hmem : q ∈ f.monitors
    · have hpos := count_pos_iff.mpr hmem
      rw [count_erase_self]
      apply T.leave 1
      rw [show 1 + (f.monitors.count q - 1 + entries q rest) =
        f.monitors.count q + entries q rest by omega]
      exact hq
    · rw [erase_of_not_mem hmem]
      rcases hown with hin | hfree
      · exact absurd hin hmem
      · exact hfree hq
  · rw [if_neg hr, Nat.sub_zero, count_erase_of_ne hr]
    exact hq

theorem tallied_exec (h : Tallied rel m.rt m.frames) (hf : m.frames = f :: rest)
    (hown : ins.op = .monitorexit → 0 < m.rt.heap.held (f.reg ins.aReg).asObj →
      (f.reg ins.aReg).asObj ∈ f.monitors ∨ ∀ {a b}, rel a b → rel (a - 1) b) :
    FlowHolds (Tallied rel) (fun rt => Tallied rel rt []) True (exec E m f ins) := by
  have htop : Tallied rel m.rt (f :: rest) := by rwa [hf] at h
  have hframes := tallied_frames (E := E) T
  refine hframes.execs h hf (fun henter => tallied_enter T htop henter _) ?_ ?_ ?_
    fun _ _ => trivial
  · intro heap hop hexit
    have hheld : 0 < m.rt.heap.held (f.reg ins.aReg).asObj := by
      have hleft := Heap.held_monitorexit hexit (f.reg ins.aReg).asObj
      rw [if_pos rfl] at hleft
      omega
    exact tallied_exit T htop hexit (hown hop hheld) _
  · intro m₁ cls _ h₁ _ _
    exact hframes.inits h₁ fun _ => Tallied.push h₁ rfl
  · intro m₁ t _ h₁ _
    exact hframes.calls h₁ fun _ _ _ => h₁.push rfl

theorem flowTallied_step (h : Tallied rel m.rt m.frames)
    (hown : exitsForeign E m = false ∨ ∀ {a b}, rel a b → rel (a - 1) b) :
    FlowTallied rel (step E m) := by
  refine flowTallied_of ((tallied_frames T).steps h (fun _ => trivial) ?_)
  intro f rest ins g hf hins h₁
  refine tallied_exec T h₁ (((Near.refl m).count E.cfg g).frames.trans hf) ?_
  rw [Machine.count_rt]
  intro hop hheld
  rcases hown with hown | hfree
  · rw [exitsForeign, atFetch_eq hf hins, decide_eq_true hop, decide_eq_true hheld] at hown
    left
    simpa using hown
  · exact Or.inr hfree

omit T in
theorem held_entryLock (entry : Method) (args : List Value) (rt : Runtime) :
    match entryLock E entry args rt with
    | (.ok lock, rt') => ∀ r, rt'.heap.held r = if r = lock then rt.heap.held r + 1
        else rt.heap.held r
    | (.error _, rt') => ∀ r, rt'.heap.held r = rt.heap.held r := by
  rcases entryLock_cases E entry args rt with ⟨cls, h⟩ | ⟨obj, rt₁, hfound, h⟩
  · rw [h]
    exact fun _ => rfl
  rw [h]
  have hq := hfound.within Runtime.quiet_primitives
  have hfail := Heap.monitorenter_fail rt₁.heap obj
  unfold lockObject
  cases henter : rt₁.heap.monitorenter obj with
  | mk failure heap =>
    rw [henter] at hfail
    cases failure with
    | none =>
      intro r
      rw [Heap.held_monitorenter henter, hq.held]
    | null | notOwner =>
      intro r
      rw [← hq.held, ← hfail (by simp)]

theorem flowTallied_enterLoop (h : Tallied rel m.rt m.frames) :
    FlowTallied rel (enterLoop E m) :=
  flowTallied_of ((tallied_frames T).entersLoop h)

omit T in
theorem flowTallied_refuse (h : Tallied rel m.rt []) (cls msg : String) :
    FlowTallied rel (refuse E m cls msg) := by
  have hexc := h.quiet (Runtime.quiet_primitives.makeException m.rt cls msg)
  unfold refuse Machine.count
  dsimp only
  split <;> exact hexc

/-- A call that begins with no monitor held is tallied, if its records are empty or count less
than nothing is no matter. -/
theorem flowTallied_start {I : Interpreter} (hfree : ∀ r, I.rt.heap.held r = 0) (c : Call)
    (hrecords : c.records = [] ∨ ∀ b, rel 0 b) : FlowTallied rel (c.start E I) := by
  have hnone : Tallied rel I.rt [] := by
    intro r
    rw [hfree]
    exact T.zero
  obtain ⟨flow, hstart, hcases⟩ := started_start (E := E) (I := I) c
  rw [hstart]
  apply FlowTallied.finish
  cases hcases with
  | rejected => exact hnone
  | refused => exact flowTallied_refuse (m := I.machine) hnone _ _
  | @unlocked name descriptor cls args id rt hlock =>
    have hheld := held_entryLock (E := E) (Runtime.method E.program id) args I.rt
    rw [hlock] at hheld
    refine flowTallied_refuse (m := { I.machine with rt }) ?_ _ _
    intro r
    show rel (rt.heap.held r) 0
    rw [hheld, hfree]
    exact T.zero
  | @run name descriptor args id _ _ _ =>
    apply flowTallied_enterLoop T
    have hentry : Tallied rel I.rt [entryFrame E.program id args []] := hnone.push rfl
    exact hentry.quiet (Runtime.quiet_primitives.bumpInvocations I.rt id)
  | @runLocked name descriptor args id lock rt _ _ hlock =>
    have hheld := held_entryLock (E := E) (Runtime.method E.program id) args I.rt
    rw [hlock] at hheld
    apply flowTallied_enterLoop T
    have hentry : Tallied rel rt [entryFrame E.program id args [lock]] := by
      intro r
      rw [hheld, hfree, entries_cons]
      show rel _ ([lock].count r + 0)
      by_cases hr : r = lock
      · subst hr
        rw [if_pos rfl, count_singleton_self]
        exact T.enter T.zero
      · rw [if_neg hr, count_eq_zero.mpr (by simpa using hr)]
        exact T.zero
    exact hentry.quiet (Runtime.quiet_primitives.bumpInvocations rt id)
  | @resume frame _ _ =>
    apply flowTallied_enterLoop T
    intro r
    show rel (I.rt.heap.held r) _
    rw [hfree, entries_cons]
    show rel 0 (frame.monitors.count r + 0)
    rcases hrecords with hnil | hany
    · have hmonitors : frame.monitors = [] := hnil
      rw [hmonitors]
      exact T.zero
    · exact hany _

end Trips

section Runs

variable {E : Env} {I : Interpreter} {c : Call}

theorem flowTallied_callAt {rel : Nat → Nat → Prop} (T : Tally rel)
    (hfree : ∀ r, I.rt.heap.held r = 0) (hrecords : c.records = [] ∨ ∀ b, rel 0 b) (n : Nat)
    (hown : (∀ {a b}, rel a b → rel (a - 1) b) ∨
      ∀ k < n, ∀ m, callAt E I c k = .running m → exitsForeign E m = false) :
    FlowTallied rel (callAt E I c n) := by
  induction n with
  | zero => exact flowTallied_start T hfree c hrecords
  | succ n ih =>
    have ih' := ih (hown.imp id fun hall k hk => hall k (by omega))
    rw [callAt]
    split
    · rename_i m hm
      rw [hm] at ih'
      exact (flowTallied_step T ih' (hown.symm.imp (fun hall => hall n (by omega) m hm)
        id)).finish
    · exact ih'

theorem plain_callAt (hplain : I.rt.Plain) (n : Nat) :
    (callAt E I c n).HasRuntime Runtime.Plain :=
  callAt_induct (P := fun flow => flow.HasRuntime Runtime.Plain)
    (hasRuntime_start Runtime.plain_invariant hplain c)
    (fun _ _ _ ih => (hasRuntime_step Runtime.plain_invariant ih).finish) n

/-- Leaving a free monitor raises before anything changed. -/
theorem step_exit_free {m : Machine} {f : Frame} {rest : List Frame} {ins : Ins} {o : HeapObj}
    (hf : m.frames = f :: rest) (hins : fetch E f = some ins) (hop : ins.op = .monitorexit)
    (hnull : (f.reg ins.aReg).isNull = false)
    (hobj : m.rt.heap.obj (f.reg ins.aReg).asObj = some o) (hfree : o.mon = {}) :
    ∃ m', m'.rt = m.rt ∧ m'.frames = m.frames ∧ step E m = raise E m' kClsIllegalMonitor "" := by
  obtain ⟨m₁, hnear, hrt, hstep⟩ := step_fetched hf hins
  have hfail : m₁.rt.heap.monitorexit (f.reg ins.aReg).asObj = (.notOwner, m₁.rt.heap) := by
    unfold Heap.monitorexit
    rw [hrt, hobj]
    dsimp only
    rw [if_pos (Or.inr (by rw [hfree]))]
  refine ⟨m₁, hrt, hnear.frames, ?_⟩
  rw [hstep]
  unfold exec
  rw [hop]
  show execMonitor E m₁ f ins Heap.monitorexit _ = _
  unfold execMonitor
  dsimp only
  rw [hnull, if_neg (by simp), hfail]
  rfl

/-- The account of the monitors, over every call that begins with all monitors free. -/
theorem monitorLaw (E : Env) (I : Interpreter) (c : Call) (hfree : AllFree I.rt) :
    MonitorLaw E I c := by
  obtain ⟨hplain, hheld⟩ := Runtime.plain_of_allFree hfree
  have hmon : ∀ n, (callAt E I c n).HasRuntime Runtime.Plain := plain_callAt hplain
  have hle : ∀ n, FlowTallied (· ≤ ·) (callAt E I c n) := fun n =>
    flowTallied_callAt tally_le hheld (.inr fun _ => Nat.zero_le _) n
      (.inl fun h => Nat.le_trans (Nat.sub_le _ _) h)
  refine ⟨?_, ?_, ?_, ?_⟩
  · intro n m hm r
    have hplain := hmon n
    have hcount := hle n
    rw [hm] at hplain hcount
    exact ⟨m.rt.heap.held r, hcount r, Runtime.monitorOf_held hplain r⟩
  · intro hrecords n hown m hm r
    have hplain := hmon n
    have hcount := flowTallied_callAt (E := E) tally_eq hheld (.inl hrecords) n (.inr hown)
    rw [hm] at hplain hcount
    rw [Runtime.monitorOf_held hplain r, hcount r]
  · intro n m f rest ins o _ hf hins hop hnull hobj hmonFree
    exact step_exit_free hf hins hop hnull hobj hmonFree
  · intro n status m hm r
    have hplain := hmon n
    have hcount := hle n
    rw [hm] at hplain hcount
    have hzero : m.rt.heap.held r = 0 := Nat.le_zero.mp (hcount r)
    rw [Runtime.monitorOf_held hplain r, hzero]
    rfl

end Runs

/-! ## A foreign exit -/

/-- `static void work()`, leaving the monitor of the class object. -/
def workLeaving : Method where
  name := "work"
  flags := 0x0008
  numRegs := 1
  code := [⟨.ldc, 0, 0, 0, 0⟩, ⟨.monitorexit, 0, 0, 0, 0⟩, ⟨.returnVoid, 0, 0, 0, 0⟩]
  cp := [{ kind := .klass, str := "Main" }]

/-- `static void main()`, entering the monitor of the class object around a call of `work`. -/
def mainEntering : Method where
  name := "main"
  flags := 0x0008
  numRegs := 1
  code := [⟨.ldc, 0, 0, 0, 0⟩, ⟨.monitorenter, 0, 0, 0, 0⟩, ⟨.invokestatic, 0, 0, 0, 1⟩,
    ⟨.returnVoid, 0, 0, 0, 0⟩]
  cp := [{ kind := .klass, str := "Main" },
    { kind := .methodRef, str := "Main", str2 := "work", str3 := "()V" }]

def leavingCallee : Env where
  program := { methods := [mainEntering, workLeaving] }
  host := default

/-- Monitor of an object and its entries in the records, in a flow that is in the loop. -/
def accountOf (r : Nat) : Flow → Option (MonitorState × Nat)
  | .running m => some (m.rt.heap.monitorOf r, entries r m.frames)
  | _ => none

/-- A new interpreter holds the two print streams, and nobody owns them. -/
theorem allFree_new (p : Program) : AllFree (Interpreter.new p).rt := by
  intro r
  have hmons : (Interpreter.new p).rt.heap.objs.map HeapObj.mon = [{}, {}] := rfl
  unfold Heap.monitorOf Heap.obj
  by_cases hr : r = 0
  · rw [if_pos hr]
    rfl
  · rw [if_neg hr, ← getElem?_map, hmons]
    match r - 1 with
    | 0 => rfl
    | 1 => rfl
    | n + 2 => rfl

/-- The callee's exit frees the monitor that the caller still records. -/
theorem not_accounted_leavingCallee : AllFree (Interpreter.new leavingCallee.program).rt ∧
      ¬ ∀ n m, callAt leavingCallee (.new leavingCallee.program) (.run "main" "()V" []) n =
        .running m → Accounted m.rt m.frames := by
  refine ⟨allFree_new _, ?_⟩
  intro hall
  have haccount : accountOf 3 (callAt leavingCallee (.new leavingCallee.program)
      (.run "main" "()V" []) 5) = some ({}, 1) := by
    decide +kernel
  cases hflow : callAt leavingCallee (.new leavingCallee.program) (.run "main" "()V" []) 5 with
  | running m =>
    rw [hflow] at haccount
    have hpair : (m.rt.heap.monitorOf 3, entries 3 m.frames) = ({}, 1) :=
      Option.some.inj haccount
    rw [Prod.mk.injEq] at hpair
    have hcontra := hall 5 m hflow 3
    rw [hpair.1, hpair.2] at hcontra
    cases hcontra
  | ended status m | undefined =>
    rw [hflow] at haccount
    cases haccount

/-- A balanced pair of a recursive entry around a call, run to its end. -/
theorem monitorLaw_lockedEntry :
    (callAt lockedEntry (.new lockedEntry.program) (.run "main" "()V" []) 4).isEnded = true ∧
      MonitorLaw lockedEntry (.new lockedEntry.program) (.run "main" "()V" []) :=
  ⟨by decide +kernel, monitorLaw lockedEntry _ _ (allFree_new _)⟩

end B2Compiler.Interp
