import B2Compiler.Interp.FrameInvariants
import B2Compiler.Interp.Served
import B2Compiler.Interp.Monitors

/-!
# The locks of synchronized methods

An activation of a synchronized method is to hold the monitor of its receiver, or of the class
object, from its start until it is left, and to give it back once.  The loop takes that lock
for the entry method of a `run` and for no other: neither a call nor the start of a class
initializer locks anything.  The law holds in every run that pushes no other synchronized
frame and whose code leaves the lock of its entry method alone.
-/

namespace B2Compiler.Interp

open Rbc List

/-! ## The law -/

def ofSynchronized (E : Env) (f : Frame) : Bool :=
  (Runtime.method E.program f.method).isSynchronized

/-- Entries of the monitor of `r` in the records of the frames. -/
def entries (r : Nat) (frames : List Frame) : Nat := (frames.map fun f => f.monitors.count r).sum

/-- The object a frame has to lock: the class object for a static method, else the receiver,
which is the first argument of the run or of the invoke under the caller's pc. -/
def lockOf (E : Env) (args : List Value) (rt : Runtime) (f : Frame) (below : List Frame) :
    Option Nat :=
  if (Runtime.method E.program f.method).isStatic then rt.classObjectOf E.program.className
  else
    match below with
    | [] => args.head?.map Value.asObj
    | caller :: _ => (fetch E caller).map fun ins => (caller.reg ins.aReg).asObj

/-- Every frame of a synchronized method has entered its lock, and the lock is held as often as
it was before the run and as the frames have entered it. -/
def Locked (E : Env) (base : Nat → Nat) (args : List Value) (m : Machine) : Prop :=
  ∀ above f below, m.frames = above ++ f :: below → ofSynchronized E f = true →
    ∃ lock, lockOf E args m.rt f below = some lock ∧ lock ∈ f.monitors ∧
      m.rt.heap.held lock = base lock + entries lock m.frames

/-- The lock of a synchronized frame that a trip has left is given back: it is held as often
as before the run and as the frames that remain have entered it. -/
def Released (E : Env) (base : Nat → Nat) (args : List Value) (m : Machine) (flow : Flow) : Prop :=
  ∀ above f below lock, m.frames = above ++ f :: below → ofSynchronized E f = true →
    lockOf E args m.rt f below = some lock →
      match flow with
      | .running m' => m'.frames.length ≤ below.length →
          m'.rt.heap.held lock = base lock + entries lock m'.frames
      | .ended _ m' => m'.rt.heap.held lock = base lock
      | .undefined => True

structure LockLaw (E : Env) (I : Interpreter) (name descriptor : String) (args : List Value) :
    Prop where
  locked : ∀ n m, callAt E I (.run name descriptor args) n = .running m →
    Locked E I.rt.heap.held args m
  released : ∀ n m, callAt E I (.run name descriptor args) n = .running m →
    Released E I.rt.heap.held args m (callAt E I (.run name descriptor args) (n + 1))

/-- Does a frame of a synchronized method on the stack have `r` as the lock it began with? -/
def guards (E : Env) (frames : List Frame) (r : Nat) : Bool :=
  frames.any fun g => ofSynchronized E g && g.monitors.getLast? == some r

def hasEntered (E : Env) (f : Frame) (r : Nat) : Bool :=
  (if ofSynchronized E f then f.monitors.dropLast else f.monitors).contains r

/-- What a state has to meet: no frame of a synchronized method is about to be pushed, by a
call or by the start of a class initializer, and a `monitorexit` of a lock that such a frame
began with gives back an entry of the executing frame's own code. -/
structure CleanStep (E : Env) (m : Machine) : Prop where
  call : ∀ t ∈ callTarget E m, (Runtime.method E.program t).isAbstract = false →
    isNative (Runtime.method E.program t) = false → m.frames.length < E.cfg.maxFrames →
    (Runtime.method E.program t).isSynchronized = false
  init : triggers E m = true → m.rt.started E.program.className = false →
    (E.program.find kClinitName kClinitDesc).isSome = true →
    m.frames.length < E.cfg.maxFrames → (Runtime.method E.program 0).isSynchronized = false
  exit : atFetch E m true (fun f ins =>
    !(ins.op = .monitorexit && guards E m.frames (f.reg ins.aReg).asObj) ||
      hasEntered E f (f.reg ins.aReg).asObj) = true

/-! ## The invariant -/

theorem entries_cons (r : Nat) (f : Frame) (frames : List Frame) :
    entries r (f :: frames) = f.monitors.count r + entries r frames := by
  rw [entries, map_cons, sum_cons]
  rfl

def entryLockOf (E : Env) (args : List Value) (id : Nat) (rt : Runtime) : Option Nat :=
  if (Runtime.method E.program id).isStatic then rt.classObjectOf E.program.className
  else args.head?.map Value.asObj

/-- Only the outermost frame can be one of a synchronized method; it has its lock at the end
of its record, and the lock's count is accounted for. -/
structure Guarded (E : Env) (base : Nat → Nat) (args : List Value) (id lock : Nat) (rt : Runtime)
    (frames : List Frame) : Prop where
  registered : rt.Registered
  above : ∀ f ∈ frames.dropLast, ofSynchronized E f = false
  outermost : frames.getLast?.map Frame.method = some id
  lock : (Runtime.method E.program id).isSynchronized = true →
    entryLockOf E args id rt = some lock ∧
      frames.getLast?.bind (fun f => f.monitors.getLast?) = some lock ∧
      rt.heap.held lock = base lock + entries lock frames

/-- What a run leaves behind: the lock of its entry method is as it was. -/
def Free (E : Env) (base : Nat → Nat) (id lock : Nat) (rt : Runtime) : Prop :=
  (Runtime.method E.program id).isSynchronized = true → rt.heap.held lock = base lock

section Invariant

variable {E : Env} {base : Nat → Nat} {args : List Value} {id lock : Nat} {rt rt' : Runtime}
  {f g : Frame} {frames rest : List Frame}

theorem entryLockOf_keeps (hreg : rt.Registered) (hk : rt.Keeps rt')
    (hq : rt.Quiet rt') (h : entryLockOf E args id rt = some lock) :
    entryLockOf E args id rt' = some lock := by
  unfold entryLockOf at h ⊢
  split
  · rename_i hstatic
    rw [if_pos hstatic] at h
    exact hq.classObjectOf hk hreg h
  · rename_i hstatic
    rw [if_neg hstatic] at h
    exact h

namespace Guarded

theorem keeps (h : Guarded E base args id lock rt frames) (hk : rt.Keeps rt') (hq : rt.Quiet rt') :
    Guarded E base args id lock rt' frames where
  registered := hk.registered h.registered
  above := h.above
  outermost := h.outermost
  lock hsync := by
    obtain ⟨hlock, hlast, hheld⟩ := h.lock hsync
    exact ⟨entryLockOf_keeps h.registered hk hq hlock, hlast, (hq.held lock).trans hheld⟩

theorem guards_lock (h : Guarded E base args id lock rt frames)
    (hsync : (Runtime.method E.program id).isSynchronized = true) :
    guards E frames lock = true := by
  have hout := h.outermost
  have hlast := (h.lock hsync).2.1
  cases hb : frames.getLast? with
  | none =>
    rw [hb] at hout
    cases hout
  | some b =>
    rw [hb] at hout hlast
    rw [Option.map_some, Option.some.injEq] at hout
    rw [Option.bind_some] at hlast
    rw [guards, any_eq_true]
    refine ⟨b, mem_of_getLast? hb, ?_⟩
    rw [ofSynchronized, hout, hsync, hlast]
    simp

/-- The innermost frame may change its record along with the counts. -/
theorem retop (h : Guarded E base args id lock rt (f :: rest)) (hreg : rt'.Registered)
    (hlocks : entryLockOf E args id rt = some lock → entryLockOf E args id rt' = some lock)
    (hmethod : g.method = f.method)
    (hrecord : guards E (f :: rest) lock = true →
      (ofSynchronized E f = true → f.monitors.getLast? = some lock →
        g.monitors.getLast? = some lock) ∧
      rt'.heap.held lock + f.monitors.count lock = rt.heap.held lock + g.monitors.count lock) :
    Guarded E base args id lock rt' (g :: rest) where
  registered := hreg
  above := by
    have habove := h.above
    cases rest with
    | nil => simp
    | cons a as =>
      simp only [dropLast_cons_cons, mem_cons, forall_eq_or_imp] at habove ⊢
      refine ⟨?_, habove.2⟩
      rw [ofSynchronized, hmethod]
      exact habove.1
  outermost := by
    have hout := h.outermost
    cases rest with
    | nil =>
      simp only [getLast?_singleton, Option.map_some, Option.some.injEq] at hout ⊢
      exact hmethod.trans hout
    | cons a as =>
      rw [getLast?_cons_cons] at hout ⊢
      exact hout
  lock hsync := by
    obtain ⟨hlock, hlast, hheld⟩ := h.lock hsync
    obtain ⟨hkept, hcount⟩ := hrecord (h.guards_lock hsync)
    refine ⟨hlocks hlock, ?_, ?_⟩
    · cases rest with
      | nil =>
        have hout := h.outermost
        simp only [getLast?_singleton, Option.bind_some, Option.map_some,
          Option.some.injEq] at hlast hout ⊢
        apply hkept _ hlast
        rw [ofSynchronized, hout]
        exact hsync
      | cons a as =>
        rw [getLast?_cons_cons] at hlast ⊢
        exact hlast
    · rw [entries_cons] at hheld ⊢
      omega

theorem setTop (h : Guarded E base args id lock rt (f :: rest)) (hmethod : g.method = f.method)
    (hmonitors : g.monitors = f.monitors) : Guarded E base args id lock rt (g :: rest) := by
  apply h.retop h.registered (fun hlock => hlock) hmethod
  intro _
  rw [hmonitors]
  exact ⟨fun _ hlast => hlast, rfl⟩

theorem push (h : Guarded E base args id lock rt frames) (hsync : ofSynchronized E g = false)
    (hmonitors : g.monitors = []) : Guarded E base args id lock rt (g :: frames) := by
  cases frames with
  | nil =>
    have hout := h.outermost
    cases hout
  | cons a as =>
    refine ⟨h.registered, ?_, ?_, ?_⟩
    · simp only [dropLast_cons_cons, mem_cons, forall_eq_or_imp]
      exact ⟨hsync, h.above⟩
    · rw [getLast?_cons_cons]
      exact h.outermost
    intro hid
    obtain ⟨hlock, hlast, hheld⟩ := h.lock hid
    refine ⟨hlock, ?_, ?_⟩
    · rw [getLast?_cons_cons]
      exact hlast
    · rw [entries_cons lock g, hmonitors, count_nil, Nat.zero_add]
      exact hheld

theorem pop (h : Guarded E base args id lock rt (f :: g :: rest)) :
    Guarded E base args id lock { rt with heap := releaseMonitorsLIFO rt.heap f } (g :: rest) where
  registered := (Runtime.keeps_heap rt _).registered h.registered
  above x hx := by
    apply h.above x
    rw [dropLast_cons_cons]
    exact mem_cons_of_mem _ hx
  outermost := by
    rw [← h.outermost, getLast?_cons_cons]
  lock hsync := by
    obtain ⟨hlock, hlast, hheld⟩ := h.lock hsync
    refine ⟨hlock, ?_, ?_⟩
    · rw [← hlast, getLast?_cons_cons]
    · apply Heap.held_release
      rw [hheld, entries_cons]
      omega

/-- Leaving the outermost frame gives its lock back. -/
theorem popLast (h : Guarded E base args id lock rt [f]) :
    Free E base id lock { rt with heap := releaseMonitorsLIFO rt.heap f } := by
  intro hsync
  apply Heap.held_release
  rw [(h.lock hsync).2.2, entries_cons]
  rfl

end Guarded

theorem guarded_frames : FrameInvariant E Runtime.Quiet (Guarded E base args id lock)
    (Free E base id lock) where
  services := Runtime.quiet_primitives
  inside hk hq h := h.keeps hk hq
  setTop hmethod hmonitors _ _ _ h := h.setTop hmethod hmonitors
  handler _ _ h := h.setTop rfl rfl
  pop h := h.pop
  last h := h.popLast
  none h := by cases h.outermost

/-! ## One trip -/

/-- The invariant of a flow. -/
def FlowGuarded (E : Env) (base : Nat → Nat) (args : List Value) (id lock : Nat) : Flow → Prop
  | .running m => Guarded E base args id lock m.rt m.frames
  | .ended _ m => Free E base id lock m.rt
  | .undefined => True

variable {m m₁ : Machine} {ins : Ins} {flow : Flow}

theorem flowGuarded_of
    (h : FlowHolds (Guarded E base args id lock) (Free E base id lock) True flow) :
    FlowGuarded E base args id lock flow := by
  cases flow <;> exact h

theorem FlowGuarded.finish (h : FlowGuarded E base args id lock flow) :
    FlowGuarded E base args id lock flow.finish := by
  cases flow with
  | running m | ended status m => exact h
  | undefined => trivial

/-- The lookup of a marked class answers method `0`. -/
theorem findClinit_marked {cls : Nat} (hreg : rt.Registered)
    (hneeds : rt.needsInit E.program cls = true) :
    (rt.markInitialized cls).findClinit E.program cls = 0 ∧
      (rt.markInitialized cls).Registered := by
  obtain ⟨⟨ci, hci, hname⟩, _⟩ := (Runtime.needsInit_iff hreg).mp hneeds
  obtain ⟨hmarked, hstarted, _⟩ := Runtime.markInitialized_spec hreg hci hname
  refine ⟨?_, hmarked⟩
  unfold Runtime.findClinit
  rw [if_neg]
  intro hagain
  have hnot := ((Runtime.needsInit_iff hmarked).mp hagain).2.1
  rw [hstarted] at hnot
  cases hnot

theorem guarded_enter {r : Nat} {heap : Heap} (h : Guarded E base args id lock rt (f :: rest))
    (henter : rt.heap.monitorenter r = (.none, heap)) (pc : Nat) :
    Guarded E base args id lock { rt with heap }
      ({ f with monitors := r :: f.monitors, pc := pc } :: rest) := by
  refine h.retop (g := { f with monitors := r :: f.monitors, pc := pc })
    ((Runtime.keeps_heap rt heap).registered h.registered) (fun hlock => hlock) rfl ?_
  intro _
  have hheld := Heap.held_monitorenter henter lock
  constructor
  · intro _ hlast
    show (r :: f.monitors).getLast? = some lock
    rw [getLast?_cons, hlast]
    rfl
  · show heap.held lock + _ = _ + (r :: f.monitors).count lock
    rw [hheld, count_cons]
    by_cases hr : r = lock
    · simp [hr]
      omega
    · simp [hr, Ne.symm hr]

/-- Taking an element off a list leaves its last one, unless it is taken itself. -/
theorem getLast?_erase {l : List Nat} {a r : Nat} (hlast : l.getLast? = some a)
    (hr : r = a → r ∈ l.dropLast) : (l.erase r).getLast? = some a := by
  obtain ⟨d, hl⟩ := getLast?_eq_some_iff.mp hlast
  subst hl
  rw [dropLast_concat] at hr
  rw [erase_append]
  split
  · exact getLast?_concat
  · rename_i hmem
    have hne : ¬ a = r := fun heq => hmem (hr heq.symm)
    rw [erase_cons_tail (by simpa using hne)]
    exact getLast?_concat

/-- Leaving a monitor of its own code takes it off the record. -/
theorem guarded_exit {r : Nat} {heap : Heap} (h : Guarded E base args id lock rt (f :: rest))
    (hexit : rt.heap.monitorexit r = (.none, heap)) (pc : Nat)
    (hown : guards E (f :: rest) r = true → hasEntered E f r = true) :
    Guarded E base args id lock { rt with heap }
      ({ f with monitors := f.monitors.erase r, pc := pc } :: rest) := by
  refine h.retop (g := { f with monitors := f.monitors.erase r, pc := pc })
    ((Runtime.keeps_heap rt heap).registered h.registered) (fun hlock => hlock) rfl ?_
  intro hguards
  have hheld := Heap.held_monitorexit hexit lock
  constructor
  · intro hsync hlast
    show (f.monitors.erase r).getLast? = some lock
    apply getLast?_erase hlast
    intro hr
    subst hr
    have hentered := hown hguards
    rw [hasEntered, if_pos hsync, contains_iff_mem] at hentered
    exact hentered
  · show heap.held lock + f.monitors.count lock = _ + (f.monitors.erase r).count lock
    by_cases hr : lock = r
    · subst hr
      have hmem : lock ∈ f.monitors := by
        have hentered := hown hguards
        unfold hasEntered at hentered
        rw [contains_iff_mem] at hentered
        split at hentered
        · exact dropLast_subset _ hentered
        · exact hentered
      have hpos : 0 < f.monitors.count lock := count_pos_iff.mpr hmem
      rw [count_erase_self]
      rw [if_pos rfl] at hheld
      omega
    · rw [count_erase_of_ne hr]
      rw [if_neg hr] at hheld
      omega

theorem guarded_exec (h : Guarded E base args id lock m.rt m.frames)
    (hf : m.frames = f :: rest) (hins : fetch E f = some ins) (hclean : CleanStep E m) :
    FlowHolds (Guarded E base args id lock) (Free E base id lock) True (exec E m f ins) := by
  have htop := h
  rw [hf] at htop
  refine guarded_frames.execs h hf (fun henter => guarded_enter htop henter _) ?_ ?_ ?_
    fun _ _ => trivial
  · intro heap hop hexit
    have hown := hclean.exit
    rw [atFetch_eq hf hins, hf] at hown
    refine guarded_exit htop hexit _ fun hguards => ?_
    simpa [hop, hguards] using hown
  · intro m₁ cls hnear h₁ hneeds htrigger
    obtain ⟨hzero, hreg⟩ := findClinit_marked h₁.registered hneeds
    have hmarked : Guarded E base args id lock (m₁.rt.markInitialized cls) m₁.frames :=
      ⟨hreg, h₁.above, h₁.outermost, h₁.lock⟩
    refine guarded_frames.inits hmarked fun hroom => hmarked.push ?_ rfl
    obtain ⟨_, hstarted, hfind⟩ := (Runtime.needsInit_iff h₁.registered).mp hneeds
    rw [hnear.frames] at hroom
    rw [ofSynchronized, hzero]
    apply hclean.init _ _ hfind hroom
    · rw [triggers, atFetch_eq hf hins]
      exact htrigger h.registered
    · rw [← hnear.keeps.started_eq]
      exact hstarted
  · intro m₁ t hnear h₁ htarget
    refine guarded_frames.calls h₁ fun habstract hnative hroom => h₁.push ?_ rfl
    rw [hnear.frames] at hroom
    apply hclean.call _ _ habstract hnative hroom
    rw [callTarget, atFetch_eq hf hins]
    exact htarget

theorem CleanStep.count (h : CleanStep E m) (g : InterpStats → InterpStats) :
    CleanStep E (m.count E.cfg g) := by
  unfold Machine.count
  split
  · exact ⟨h.call, h.init, h.exit⟩
  · exact h

theorem flowGuarded_step (h : Guarded E base args id lock m.rt m.frames) (hclean : CleanStep E m) :
    FlowGuarded E base args id lock (step E m) :=
  flowGuarded_of <| guarded_frames.steps h (fun _ => trivial) fun g hf hins h₁ =>
    guarded_exec h₁ (((Near.refl m).count E.cfg g).frames.trans hf) hins (hclean.count g)

theorem classObjectOf_classObject {cls : Nat} {n : String} (hreg : rt.Registered)
    (hcls : rt.lookupClass n = some cls) :
    (rt.classObject cls).2.classObjectOf n = some (rt.classObject cls).1 := by
  have hlookup : (rt.classObject cls).2.lookupClass n = some cls := by
    obtain ⟨ci, hci, hname⟩ := (hreg n cls).mp hcls
    have hk := Runtime.keeps_primitives.classObject rt cls
    obtain ⟨ci', hci', hname', _⟩ := hk.old cls ci hci
    exact (hk.registered hreg n cls).mpr ⟨ci', hci', hname'.trans hname⟩
  have hobj : (rt.classObject cls).2.classObjects.getD cls 0 = (rt.classObject cls).1 ∧
      (rt.classObject cls).1 ≠ 0 := by
    unfold Runtime.classObject
    dsimp only
    split
    · rename_i hmade
      exact ⟨rfl, hmade⟩
    have hlen : cls < (rt.classObjects ++
        replicate (cls + 1 - rt.classObjects.length) 0).length := by
      rw [length_append, length_replicate]
      omega
    refine ⟨?_, Nat.succ_ne_zero _⟩
    rw [getD_eq_getElem?_getD, getElem?_set_self hlen]
    rfl
  unfold Runtime.classObjectOf
  rw [hlookup]
  dsimp only
  rw [hobj.1, if_neg hobj.2]

theorem entryLock_ok (hreg : rt.Registered)
    (h : entryLock E (Runtime.method E.program id) args rt = (.ok lock, rt')) :
    rt'.Registered ∧ entryLockOf E args id rt' = some lock ∧
      rt'.heap.held lock = rt.heap.held lock + 1 := by
  rcases entryLock_cases E (Runtime.method E.program id) args rt with
    ⟨cls, hlock⟩ | ⟨obj, rt₁, hfound, hlock⟩
  · cases hlock.symm.trans h
  have henter := hlock.symm.trans h
  have hreg₁ := (hfound.within Runtime.keeps_primitives).registered hreg
  have hq := hfound.within Runtime.quiet_primitives
  have hobj : entryLockOf E args id rt₁ = some obj := by
    rcases hfound with ⟨hstatic, hcls⟩ | ⟨hstatic, hrecv, -⟩
    · obtain rfl : obj = _ := congrArg Prod.fst hcls
      obtain rfl : rt₁ = _ := congrArg Prod.snd hcls
      have hk := Runtime.keeps_classId rt E.program.className
      rw [entryLockOf, if_pos hstatic]
      exact classObjectOf_classObject (hk.registered hreg)
        ((hk.registered hreg _ _).mpr (Runtime.classId_name hreg _))
    · rw [entryLockOf, if_neg (by simp [hstatic])]
      exact hrecv
  unfold lockObject at henter
  split at henter
  · rename_i heap heq
    cases henter
    refine ⟨(Runtime.keeps_heap rt₁ heap).registered hreg₁, hobj, ?_⟩
    rw [Heap.held_monitorenter heq lock, if_pos rfl, hq.held]
  · cases henter

theorem guarded_entry {I : Interpreter} {pushed : Frame} (hreg : rt.Registered)
    (hmethod : pushed.method = id)
    (hlock : (Runtime.method E.program id).isSynchronized = true →
      entryLockOf E args id rt = some lock ∧ pushed.monitors = [lock] ∧
        rt.heap.held lock = base lock + 1) :
    FlowGuarded E base args id lock
      (enterLoop E { I.machine with rt := rt.bumpInvocations id, frames := [pushed] }) := by
  have hstart : Guarded E base args id lock rt [pushed] := by
    refine ⟨hreg, by simp, by rw [getLast?_singleton, Option.map_some, hmethod], ?_⟩
    intro hsync
    obtain ⟨hobj, hmonitors, hheld⟩ := hlock hsync
    refine ⟨hobj, ?_, ?_⟩
    · rw [getLast?_singleton, Option.bind_some, hmonitors]
      rfl
    · rw [hheld, entries_cons, hmonitors, count_singleton_self]
      rfl
  exact flowGuarded_of (guarded_frames.entersLoop
    (m := { I.machine with rt := rt.bumpInvocations id, frames := [pushed] })
    (hstart.keeps (Runtime.keeps_primitives.bumpInvocations rt id)
      (Runtime.quiet_primitives.bumpInvocations rt id)))

theorem guarded_start {I : Interpreter} {name descriptor : String} (hreg : I.rt.Registered)
    (h : startRun E I name descriptor args = .running m) :
    ∃ id lock, Guarded E I.rt.heap.held args id lock m.rt m.frames := by
  have hguarded : ∀ (id lock : Nat) {flow : Flow}, flow.finish = .running m →
      FlowGuarded E I.rt.heap.held args id lock flow →
      ∃ id lock, Guarded E I.rt.heap.held args id lock m.rt m.frames := by
    intro id lock flow hflow hinv
    have hrunning := running_of_finish hflow
    rw [hrunning] at hinv
    exact ⟨id, lock, hinv⟩
  have hrefused : ∀ {m₁ : Machine} {cls msg : String},
      (refuse E m₁ cls msg).finish ≠ .running m := by
    intro m₁ cls msg hrun
    cases hrun
  obtain ⟨flow, hstart, hcases⟩ := started_run (E := E) (I := I) name descriptor args
  rw [hstart] at h
  cases hcases with
  | rejected => cases h
  | refused | unlocked _ => exact absurd h hrefused
  | @run _ _ _ id _ _ hsync =>
    refine hguarded id 0 h (guarded_entry hreg rfl fun hs => ?_)
    rw [hsync] at hs
    cases hs
  | @runLocked _ _ _ id lock rt _ _ hlock =>
    obtain ⟨hreg', hobj, hheld⟩ := entryLock_ok hreg hlock
    exact hguarded id lock h (guarded_entry hreg' rfl fun _ => ⟨hobj, rfl, hheld⟩)

/-! ## From the invariant to the law -/

theorem lockOf_outermost (hmethod : f.method = id) :
    lockOf E args rt f [] = entryLockOf E args id rt := by
  rw [lockOf, entryLockOf, hmethod]

theorem Guarded.outer_of_sync {above below : List Frame}
    (h : Guarded E base args id lock rt (above ++ f :: below)) (hsync : ofSynchronized E f = true) :
    below = [] ∧ f.method = id := by
  cases below with
  | nil =>
    have hout := h.outermost
    rw [getLast?_append_of_ne_nil _ (by simp), getLast?_singleton, Option.map_some,
      Option.some.injEq] at hout
    exact ⟨rfl, hout⟩
  | cons g below =>
    have hnot := h.above f (by
      rw [dropLast_append_of_ne_nil (by simp), dropLast_cons_cons]
      exact mem_append_right _ (mem_cons_self ..))
    rw [hsync] at hnot
    cases hnot

theorem Guarded.locked (h : Guarded E base args id lock m.rt m.frames) : Locked E base args m := by
  intro above f below hframes hsync
  have hframes' := hframes
  rw [hframes] at h
  obtain ⟨hbelow, hmethod⟩ := h.outer_of_sync hsync
  subst hbelow
  have hid : (Runtime.method E.program id).isSynchronized = true := by
    rw [← hmethod]
    exact hsync
  obtain ⟨hlock, hlast, hheld⟩ := h.lock hid
  rw [getLast?_append_of_ne_nil _ (by simp), getLast?_singleton, Option.bind_some] at hlast
  refine ⟨lock, ?_, mem_of_getLast? hlast, ?_⟩
  · rw [lockOf_outermost hmethod]
    exact hlock
  · rw [hframes']
    exact hheld

/-- A clean trip from a guarded stack releases what it leaves. -/
theorem Guarded.released (h : Guarded E base args id lock m.rt m.frames)
    (hnext : FlowGuarded E base args id lock flow) : Released E base args m flow := by
  intro above f below r hframes hsync hr
  rw [hframes] at h
  obtain ⟨hbelow, hmethod⟩ := h.outer_of_sync hsync
  subst hbelow
  have hid : (Runtime.method E.program id).isSynchronized = true := by
    rw [← hmethod]
    exact hsync
  have hlock : r = lock := by
    rw [lockOf_outermost hmethod, (h.lock hid).1] at hr
    cases hr
    rfl
  subst hlock
  cases flow with
  | running m' =>
    intro hleft
    -- the outermost frame of a running flow is still there
    have hnil : m'.frames = [] := eq_nil_of_length_eq_zero (Nat.le_zero.mp hleft)
    have hout := hnext.outermost
    rw [hnil] at hout
    cases hout
  | ended status m' => exact hnext hid
  | undefined => trivial

end Invariant

/-- In a run of clean trips the invariant holds throughout. -/
theorem flowGuarded_callAt {E : Env} {I : Interpreter} {name descriptor : String}
    {args : List Value} (hreg : I.rt.Registered)
    (hclean : ∀ n m, callAt E I (.run name descriptor args) n = .running m → CleanStep E m)
    {m₀ : Machine} (hstart : callAt E I (.run name descriptor args) 0 = .running m₀) :
    ∃ id lock, ∀ n, FlowGuarded E I.rt.heap.held args id lock
      (callAt E I (.run name descriptor args) n) := by
  obtain ⟨id, lock, h₀⟩ := guarded_start hreg hstart
  refine ⟨id, lock, callAt_induct ?_ fun n m hm ih => (flowGuarded_step ih (hclean n m hm)).finish⟩
  show FlowGuarded E _ _ _ _ (callAt E I _ 0)
  rw [hstart]
  exact h₀

/-- A run whose trips are all clean keeps the law of synchronized methods. -/
theorem lockLaw_of_clean (E : Env) (I : Interpreter) (hI : Served E I) (name descriptor : String)
    (args : List Value)
    (hclean : ∀ n m, callAt E I (.run name descriptor args) n = .running m → CleanStep E m) :
    LockLaw E I name descriptor args where
  locked n m hm := by
    obtain ⟨m₀, hstart⟩ := running_zero hm
    obtain ⟨id, lock, hall⟩ := flowGuarded_callAt hI.registered hclean hstart
    have hn := hall n
    rw [hm] at hn
    exact hn.locked
  released n m hm := by
    obtain ⟨m₀, hstart⟩ := running_zero hm
    obtain ⟨id, lock, hall⟩ := flowGuarded_callAt hI.registered hclean hstart
    have hn := hall n
    rw [hm] at hn
    exact hn.released (hall (n + 1))

/-! ## Two programs -/

instance (E : Env) (m : Machine) : Decidable (CleanStep E m) :=
  decidable_of_iff ((∀ t ∈ callTarget E m, (Runtime.method E.program t).isAbstract = false →
        isNative (Runtime.method E.program t) = false → m.frames.length < E.cfg.maxFrames →
        (Runtime.method E.program t).isSynchronized = false) ∧
      (triggers E m = true → m.rt.started E.program.className = false →
        (E.program.find kClinitName kClinitDesc).isSome = true →
        m.frames.length < E.cfg.maxFrames →
        (Runtime.method E.program 0).isSynchronized = false) ∧
      atFetch E m true (fun f ins =>
        !(ins.op = .monitorexit && guards E m.frames (f.reg ins.aReg).asObj) ||
          hasEntered E f (f.reg ins.aReg).asObj) = true)
    ⟨fun h => ⟨h.1, h.2.1, h.2.2⟩, fun h => ⟨h.call, h.init, h.exit⟩⟩

/-- Does the state of a flow meet the condition? -/
def flowClean (E : Env) : Flow → Bool
  | .running m => decide (CleanStep E m)
  | _ => true

/-- Methods and monitor records of the frames of a flow. -/
def frameRecords : Flow → List (Nat × List Nat)
  | .running m => m.frames.map fun f => (f.method, f.monitors)
  | _ => []

/-- `static synchronized void main() { synchronized (Main.class) { } }`. -/
def mainLocked : Method where
  name := "main"
  flags := 0x0028
  numRegs := 1
  code := [⟨.ldc, 0, 0, 0, 0⟩, ⟨.monitorenter, 0, 0, 0, 0⟩, ⟨.monitorexit, 0, 0, 0, 0⟩,
    ⟨.returnVoid, 0, 0, 0, 0⟩]
  cp := [{ kind := .klass, str := "Main" }]

def lockedEntry : Env where
  program := { methods := [mainLocked] }
  host := default

theorem lockLaw_lockedEntry :
    frameRecords (callAt lockedEntry (.new lockedEntry.program) (.run "main" "()V" []) 2) =
        [(0, [3, 3])] ∧
      LockLaw lockedEntry (.new lockedEntry.program) "main" "()V" [] := by
  refine ⟨by decide +kernel, lockLaw_of_clean lockedEntry _ .new _ _ _ ?_⟩
  have hsteps : ∀ n < 4, flowClean lockedEntry
      (callAt lockedEntry (.new lockedEntry.program) (.run "main" "()V" []) n) = true := by
    decide +kernel
  have hend : (callAt lockedEntry (.new lockedEntry.program)
      (.run "main" "()V" []) 4).isEnded = true := by
    decide +kernel
  intro n m hm
  by_cases hn : n < 4
  · have hstep := hsteps n hn
    rw [hm] at hstep
    exact of_decide_eq_true hstep
  · have hrest := callAt_ended hend (n - 4)
    rw [show 4 + (n - 4) = n by omega, hm] at hrest
    cases hrest

/-- `static synchronized void work() { }`. -/
def workLocked : Method where
  name := "work"
  flags := 0x0028
  code := [⟨.returnVoid, 0, 0, 0, 0⟩]

/-- `static void main() { work(); }`. -/
def mainWork : Method where
  name := "main"
  flags := 0x0008
  numRegs := 1
  code := [⟨.invokestatic, 0, 0, 0, 0⟩, ⟨.returnVoid, 0, 0, 0, 0⟩]
  cp := [{ kind := .methodRef, str := "Main", str2 := "work", str3 := "()V" }]

def lockedCallee : Env where
  program := { methods := [mainWork, workLocked] }
  host := default

theorem not_lockLaw_lockedCallee :
    ¬ LockLaw lockedCallee (.new lockedCallee.program) "main" "()V" [] := by
  intro h
  have hrecords : frameRecords (callAt lockedCallee (.new lockedCallee.program)
      (.run "main" "()V" []) 1) = [(1, []), (0, [])] := by
    decide +kernel
  cases hflow : callAt lockedCallee (.new lockedCallee.program) (.run "main" "()V" []) 1 with
  | running m =>
    rw [hflow] at hrecords
    have hframes : m.frames.map (fun f => (f.method, f.monitors)) = [(1, []), (0, [])] := hrecords
    match hm : m.frames with
    | [] =>
      rw [hm] at hframes
      cases hframes
    | f :: rest =>
      rw [hm, map_cons, cons.injEq, Prod.mk.injEq] at hframes
      obtain ⟨⟨hmethod, hmonitors⟩, _⟩ := hframes
      have hsync : ofSynchronized lockedCallee f = true := by
        rw [ofSynchronized, hmethod]
        decide
      obtain ⟨lock, _, hmem, _⟩ := h.locked 1 m hflow [] f rest hm hsync
      rw [hmonitors] at hmem
      cases hmem
  | ended status m | undefined =>
    rw [hflow] at hrecords
    cases hrecords

end B2Compiler.Interp
