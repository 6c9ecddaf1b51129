import Mathlib.Data.List.Chain
import B2Compiler.Interp.Synchronized

/-!
# The shape of the frames

Four routines build frames by hand, and the handlers index locals and registers without
checks.  Every frame has the registers of its method, and the local slots too, but for one
routine: the frame of a class initializer gets no local slots at all.  Where the method of
that frame declares none, no handler reaches outside a frame.
-/

namespace B2Compiler.Interp

open Rbc List Runtime Machine

/-! ## The law -/

/-- A frame has the local slots of its method and exactly its registers. -/
structure FrameShape (E : Env) (f : Frame) : Prop where
  locals : (method E.program f.method).numLocals ≤ f.locals.length
  regs : f.regs.length = (method E.program f.method).numRegs

/-- Opcodes that can push a frame: the calls, and the uses that initialise a class. -/
def pushes : Op → Bool
  | .invokevirtual | .invokeinterface | .invokespecial | .invokestatic => true
  | .invokevirtualQuick | .invokeinterfaceQuick | .invokespecialQuick | .invokestaticQuick => true
  | .new | .ldc | .getstatic | .putstatic => true
  | _ => false

/-- The frame `f` was pushed by the instruction `g` stands at, and saved its pc. -/
def PushedFrom (E : Env) (f g : Frame) : Prop :=
  f.callerPc = g.pc ∧ ∃ ins, fetch E g = some ins ∧ pushes ins.op = true

/-- Every frame has its shape, and every frame but the outermost was pushed from below. -/
structure StackShape (E : Env) (frames : List Frame) : Prop where
  shape : ∀ f ∈ frames, FrameShape E f
  linked : frames.IsChain (PushedFrom E)

/-- The law of a state in the loop. -/
structure FrameLaw (E : Env) (m : Machine) : Prop where
  stack : StackShape E m.frames
  /-- The instruction to execute names registers and a local slot inside its frame. -/
  inRange : ∀ f rest ins, m.frames = f :: rest → fetch E f = some ins →
    ((regUse (info ins.op).sig).dst = true → ins.dstReg < f.regs.length) ∧
      ((regUse (info ins.op).sig).a = true → ins.aReg < f.regs.length) ∧
      ((regUse (info ins.op).sig).b = true → ins.bReg < f.regs.length) ∧
      (accessesLocal ins.op = true → ins.immIdx < f.locals.length)
  /-- No handler leaves what the source defines. -/
  defined : step E m ≠ .undefined

/-- A frame to resume has no more registers than its method. -/
def Call.Sized (E : Env) : Call → Prop
  | .run _ _ _ => True
  | .resume frame => frame.regs.length ≤ (method E.program frame.method).numRegs

/-- Is the machine about to push the frame of a class initializer, for a method that declares
local slots?  The lookup of a class that is marked already answers method `0`. -/
def pushesBareFrame (E : Env) (m : Machine) : Prop :=
  triggers E m = true ∧ m.rt.started E.program.className = false ∧
    (E.program.find kClinitName kClinitDesc).isSome = true ∧
      m.frames.length < E.cfg.maxFrames ∧ (method E.program 0).numLocals ≠ 0

/-! ## Stacks -/

namespace StackShape

variable {E : Env} {f g : Frame} {inner rest : List Frame}

theorem setTop (h : StackShape E (f :: rest)) (hshape : FrameShape E g)
    (hcaller : g.callerPc = f.callerPc) : StackShape E (g :: rest) := by
  refine ⟨?_, ?_⟩
  · intro x hx
    rcases mem_cons.mp hx with rfl | hx
    · exact hshape
    · exact h.shape x (mem_cons_of_mem _ hx)
  · cases rest with
    | nil => exact .singleton g
    | cons below rest =>
      obtain ⟨⟨hpc, hins⟩, htail⟩ := isChain_cons_cons.mp h.linked
      exact isChain_cons_cons.mpr ⟨⟨hcaller.trans hpc, hins⟩, htail⟩

theorem below (h : StackShape E (inner ++ rest)) : StackShape E rest :=
  ⟨fun x hx => h.shape x (mem_append_right _ hx), h.linked.right_of_append⟩

theorem push (h : StackShape E (g :: rest)) (hshape : FrameShape E f)
    (hpushed : PushedFrom E f g) : StackShape E (f :: g :: rest) := by
  refine ⟨?_, isChain_cons_cons.mpr ⟨hpushed, h.linked⟩⟩
  intro x hx
  rcases mem_cons.mp hx with rfl | hx
  · exact hshape
  · exact h.shape x hx

end StackShape

/-- The stack of a flow is not empty and has its shape, and nothing undefined happened. -/
def FlowShape (E : Env) : Flow → Prop
  | .running m => StackShape E m.frames ∧ m.frames ≠ []
  | .ended _ _ => True
  | .undefined => False

section Trips

variable {E : Env} {m m₁ : Machine} {f : Frame} {rest : List Frame} {ins : Ins} {flow : Flow}

theorem FlowShape.finish (h : FlowShape E flow) : FlowShape E flow.finish := by
  cases flow with
  | running m | ended status m | undefined => exact h

theorem flowShape_of
    (h : FlowHolds (fun _ frames => StackShape E frames ∧ frames ≠ []) (fun _ => True) False flow) :
    FlowShape E flow := by
  cases flow <;> exact h

theorem stackShape_frames : FrameInvariant E Runtime.Quiet
    (fun _ frames => StackShape E frames ∧ frames ≠ []) fun _ => True where
  services := Runtime.quiet_primitives
  inside _ _ h := h
  setTop {_ f _ _} hmethod _ hregs hlocals hcaller h := by
    have hf := h.1.shape f mem_cons_self
    refine ⟨h.1.setTop ⟨?_, ?_⟩ hcaller, cons_ne_nil _ _⟩
    · rw [hmethod, hlocals]
      exact hf.locals
    · rw [hmethod, hregs]
      exact hf.regs
  handler {_ f _} hd exc h := by
    refine ⟨h.1.setTop ⟨(h.1.shape f mem_cons_self).locals, ?_⟩ rfl, cons_ne_nil _ _⟩
    show ((replicate (method E.program f.method).numRegs Value.bottom).set 0
      (.refVal exc)).length = (method E.program f.method).numRegs
    rw [length_set, length_replicate]
  pop {_ f _ _} h :=
    have shape : StackShape E ([f] ++ _) := h.1
    ⟨shape.below, cons_ne_nil _ _⟩
  last _ := trivial
  none _ := trivial

theorem calleeFrame_shape (call : Ins) (t : Nat) (caller : Frame) :
    FrameShape E (calleeFrame (method E.program t) t call caller) :=
  ⟨length_growTo _ _, length_replicate⟩

theorem pushes_of_invokeTarget {t : Nat} (h : invokeTarget E m f ins = some t) :
    pushes ins.op = true := by
  unfold invokeTarget at h
  dsimp only at h
  split at h
  all_goals first
    | (rename_i hop; rw [hop]; rfl)
    | cases h

theorem pushes_of_initTrigger {rt : Runtime} (h : initTrigger E rt f ins = true) :
    pushes ins.op = true := by
  unfold initTrigger at h
  dsimp only at h
  split at h
  all_goals first
    | (rename_i hop; rw [hop]; rfl)
    | cases h

theorem sig_of_accessesLocal {op : Op} (h : accessesLocal op = true) :
    (info op).sig = .regSlot ∨ (info op).sig = .slotReg := by
  unfold accessesLocal at h
  rwa [Bool.or_eq_true, decide_eq_true_iff, decide_eq_true_iff] at h

theorem stackShape_exec (hf : m.frames = f :: rest) (hstack : StackShape E m.frames)
    (hins : fetch E f = some ins) (hreg : m.rt.Registered)
    (hwf : WellFormed (method E.program f.method) ins)
    (hlocals : initTrigger E m.rt f ins = true → m.rt.started E.program.className = false →
      (E.program.find kClinitName kClinitDesc).isSome = true →
      m.frames.length < E.cfg.maxFrames → (method E.program 0).numLocals = 0) :
    FlowHolds (fun _ frames => StackShape E frames ∧ frames ≠ []) (fun _ => True) False
      (exec E m f ins) := by
  have hf₀ : FrameShape E f := hstack.shape f (by rw [hf]; exact mem_cons_self)
  have hne : m.frames ≠ [] := by simp [hf]
  have htop : StackShape E (f :: rest) := hf ▸ hstack
  refine stackShape_frames.execs ⟨hstack, hne⟩ hf ?_ ?_ ?_ ?_ ?_
  · exact fun _ => ⟨htop.setTop ⟨hf₀.locals, hf₀.regs⟩ rfl, cons_ne_nil _ _⟩
  · exact fun _ _ => ⟨htop.setTop ⟨hf₀.locals, hf₀.regs⟩ rfl, cons_ne_nil _ _⟩
  · intro m₁ cls hnear h₁ hneeds htrigger
    have hreg₁ := hnear.keeps.registered hreg
    obtain ⟨-, hstarted, hfind⟩ := (needsInit_iff hreg₁).mp hneeds
    rw [hnear.keeps.started_eq] at hstarted
    have hfires := htrigger hreg
    refine stackShape_frames.inits h₁ fun hroom => ⟨?_, cons_ne_nil _ _⟩
    rw [hnear.frames] at hroom ⊢
    rw [(findClinit_marked hreg₁ hneeds).1, hf]
    refine htop.push ⟨?_, length_replicate⟩ ⟨rfl, ins, hins, pushes_of_initTrigger hfires⟩
    show (method E.program 0).numLocals ≤ 0
    rw [hlocals hfires hstarted hfind hroom]
  · intro m₁ t hnear h₁ htarget
    refine stackShape_frames.calls h₁ fun _ _ _ => ⟨?_, cons_ne_nil _ _⟩
    rw [hnear.frames, hf]
    exact htop.push (calleeFrame_shape ins t f) ⟨rfl, ins, hins, pushes_of_invokeTarget htarget⟩
  · intro hop hslot
    have hlt : ins.immIdx < (method E.program f.method).numLocals :=
      hwf.slot (sig_of_accessesLocal hop)
    have hle := hf₀.locals
    omega

theorem flowShape_step (hgate : gateDiags E.program = none) (hreg : m.rt.Registered)
    (hstack : StackShape E m.frames) (hne : m.frames ≠ []) (hclean : ¬ pushesBareFrame E m) :
    FlowShape E (step E m) := by
  refine flowShape_of (stackShape_frames.steps ⟨hstack, hne⟩ hne ?_)
  intro f rest ins g hf hins h₁
  have hcount := (Near.refl m).count E.cfg g
  refine stackShape_exec (hcount.frames.trans hf) h₁.1 hins (hcount.keeps.registered hreg)
    (wellFormed_of_fetch hgate hins) ?_
  rw [count_rt, hcount.frames]
  intro htrigger hstarted hfind hroom
  by_contra hlocals
  refine hclean ⟨?_, hstarted, hfind, hroom, hlocals⟩
  rw [triggers, atFetch_eq hf hins]
  exact htrigger

theorem flowShape_enterLoop (hf : m.frames = [f]) (hshape : FrameShape E f) :
    FlowShape E (enterLoop E m) := by
  refine flowShape_of (stackShape_frames.entersLoop ?_)
  rw [hf]
  exact ⟨⟨fun x hx => by rw [mem_singleton.mp hx]; exact hshape, .singleton f⟩, cons_ne_nil _ _⟩

theorem flowShape_start {I : Interpreter} {c : Call} (hsized : c.Sized E) :
    FlowShape E (c.start E I) := by
  obtain ⟨flow, hstart, hcases⟩ := started_start (E := E) (I := I) c
  rw [hstart]
  apply FlowShape.finish
  have hentry : ∀ id args monitors, FrameShape E (entryFrame E.program id args monitors) :=
    fun id args monitors => ⟨length_growTo _ _, length_replicate⟩
  cases hcases with
  | rejected => trivial
  | refused | unlocked _ =>
    unfold refuse Machine.count
    trivial
  | run _ _ _ | runLocked _ _ _ => exact flowShape_enterLoop rfl (hentry _ _ _)
  | @resume frame _ _ =>
    refine flowShape_enterLoop rfl ⟨length_growTo _ _, ?_⟩
    have hle : frame.regs.length ≤ (method E.program frame.method).numRegs := hsized
    show (growTo frame.regs (method E.program frame.method).numRegs).length = _
    unfold growTo
    rw [length_append, length_replicate]
    show _ = (method E.program frame.method).numRegs
    omega

end Trips

section Runs

variable {E : Env} {I : Interpreter} {c : Call}

theorem gate_of_callAt {n : Nat} {m : Machine} (h : callAt E I c n = .running m) :
    gateDiags E.program = none := by
  obtain ⟨m₀, hstart⟩ := running_zero h
  exact gate_of_start hstart

theorem flowShape_callAt (hreg : I.rt.Registered) (hsized : c.Sized E)
    (hclean : ∀ n m, callAt E I c n = .running m → ¬ pushesBareFrame E m) (n : Nat) :
    FlowShape E (callAt E I c n) := by
  induction n with
  | zero => exact flowShape_start hsized
  | succ n ih =>
    rw [callAt]
    split
    · rename_i m hm
      have hframes := flowFrames_callAt (E := E) hreg c n
      rw [hm] at ih hframes
      exact (flowShape_step (gate_of_callAt hm) hframes.registered ih.1 ih.2 (hclean n m hm)).finish
    · exact ih

/-! ## The program class -/

/-- The registry of a flow in the loop knows the program class. -/
def FlowGood (E : Env) : Flow → Prop
  | .running m => Good E m
  | _ => True

theorem FlowGood.finish {flow : Flow} (h : FlowGood E flow) : FlowGood E flow.finish := by
  cases flow with
  | running m => exact h
  | ended status m | undefined => trivial

theorem flowGood_of_thrown {m : Machine} {flow : Flow} (h : Thrown E m flow)
    (hgood : Good E m) : FlowGood E flow := by
  cases h with
  | caught _ _ _ _ hkeeps hclass => exact hgood.keeps hkeeps hclass
  | ended _ => trivial

theorem flowGood_pushClinit {m : Machine} {f : Frame} {cls : Nat} (hgood : Good E m)
    (hneeds : m.rt.needsInit E.program cls = true) : FlowGood E (pushClinit E m f cls) := by
  by_cases hroom : m.frames.length < E.cfg.maxFrames
  · obtain ⟨m', hpush, -, hgood', -⟩ := pushClinit_spec (f := f) hgood hneeds hroom
    rw [hpush]
    exact hgood'
  have hmarked : Good E { m with rt := m.rt.markInitialized cls } := by
    obtain ⟨⟨ci, hci, hname⟩, -⟩ := (needsInit_iff hgood.registered).mp hneeds
    obtain ⟨hreg, -, hnames⟩ := markInitialized_spec hgood.registered hci hname
    obtain ⟨ci', hci', hname'⟩ := hgood.named
    obtain ⟨ci'', hci'', hname''⟩ := hnames _ ci' hci'
    exact ⟨hreg, ci'', hci'', hname''.trans hname'⟩
  have hraise : pushClinit E m f cls =
      raise E { m with rt := m.rt.markInitialized cls } kClsStackOverflow "" := by
    unfold pushClinit
    dsimp only
    rw [if_pos (by omega)]
  rw [hraise]
  exact flowGood_of_thrown (thrown_raise _ _ _) hmarked

theorem flowGood_of_stepped {m : Machine} {flow : Flow} (h : Stepped E m flow)
    (hgood : Good E m) : FlowGood E flow := by
  cases h with
  | stay _ _ _ hkeeps hclass _ => exact hgood.keeps hkeeps hclass
  | init _ hnear _ hneeds =>
    exact flowGood_pushClinit (hgood.keeps hnear.keeps hnear.programClass) hneeds
  | call _ _ hkeeps hclass _ | caught _ _ _ _ hkeeps hclass | ret _ _ hkeeps hclass =>
    exact hgood.keeps hkeeps hclass
  | ended _ | undefined => trivial

theorem flowGood_enterLoop {m : Machine} (hreg : m.rt.Registered) : FlowGood E (enterLoop E m) := by
  obtain ⟨-, -, hgood⟩ : _ ∧ _ ∧ Good E (internProgram E m) := internProgram_spec hreg
  unfold enterLoop
  generalize internProgram E m = m₁ at hgood
  dsimp only
  split
  · split
    · exact flowGood_of_thrown (thrown_throw (.refl _) _) ⟨hgood.registered, hgood.named⟩
    · exact hgood
  · exact hgood

theorem flowGood_callAt (hreg : I.rt.Registered) (n : Nat) : FlowGood E (callAt E I c n) := by
  refine callAt_induct ?_
    (fun _ _ _ ih => (flowGood_of_stepped (stepped_step ih.registered) ih).finish) n
  obtain ⟨flow, hstart, hcases⟩ := started_start (E := E) (I := I) c
  rw [hstart]
  apply FlowGood.finish
  have hbump : ∀ (rt : Runtime) id, rt.Registered → (rt.bumpInvocations id).Registered :=
    fun rt id h => (keeps_primitives.bumpInvocations rt id).registered h
  cases hcases with
  | rejected => trivial
  | refused | unlocked _ =>
    unfold refuse Machine.count
    trivial
  | run _ _ _ => exact flowGood_enterLoop (hbump _ _ hreg)
  | @runLocked name descriptor args id lock rt _ _ hlock =>
    have hkeeps := keeps_entryLock (E := E) (method E.program id) args I.rt
    rw [hlock] at hkeeps
    exact flowGood_enterLoop (hbump _ _ (hkeeps.registered hreg))
  | resume _ _ => exact flowGood_enterLoop hreg

theorem not_shaped_of_bare (hreg : I.rt.Registered) {n : Nat} {m : Machine}
    (hm : callAt E I c n = .running m) (hbare : pushesBareFrame E m) :
    ∃ m', callAt E I c (n + 1) = .running m' ∧ ¬ FrameLaw E m' := by
  obtain ⟨htrigger, hstarted, hfind, hroom, hlocals⟩ := hbare
  have hgood := flowGood_callAt (E := E) (c := c) hreg n
  rw [hm] at hgood
  obtain ⟨f, rest, m₁, cls, hf, hnear, hneeds, hstep⟩ :=
    step_of_trigger hgood hstarted hfind htrigger
  obtain ⟨m', hpush, hframes, -, -⟩ := pushClinit_spec (f := f)
    (hgood.keeps hnear.keeps hnear.programClass) hneeds (by rw [hnear.frames]; exact hroom)
  refine ⟨m', ?_, ?_⟩
  · rw [callAt, hm]
    show (step E m).finish = _
    rw [hstep, hpush]
    rfl
  · intro hlaw
    have hshape := hlaw.stack.shape (firstMethodFrame E.program f.pc)
      (by rw [hframes]; exact mem_cons_self)
    have hle : (method E.program 0).numLocals ≤ 0 := hshape.locals
    omega

theorem frameLaw_of_clean (hreg : I.rt.Registered) (hsized : c.Sized E)
    (hclean : ∀ n m, callAt E I c n = .running m → ¬ pushesBareFrame E m) {n : Nat}
    {m : Machine} (hm : callAt E I c n = .running m) : FrameLaw E m := by
  have hgate := gate_of_callAt hm
  have hshape := flowShape_callAt hreg hsized hclean n
  have hframes := flowFrames_callAt (E := E) hreg c n
  rw [hm] at hshape hframes
  refine ⟨hshape.1, ?_, ?_⟩
  · intro f rest ins hf hins
    have hwf := wellFormed_of_fetch hgate hins
    have hfshape := hshape.1.shape f (by rw [hf]; exact mem_cons_self)
    have hslots := hfshape.locals
    obtain ⟨hdst, ha, hb⟩ := hwf.operands_lt
    rw [hfshape.regs]
    refine ⟨hdst, ha, hb, ?_⟩
    intro hop
    have hlt : ins.immIdx < (method E.program f.method).numLocals :=
      hwf.slot (sig_of_accessesLocal hop)
    omega
  · intro hundefined
    have hstep := flowShape_step hgate hframes.registered hshape.1 hshape.2 (hclean n m hm)
    rw [hundefined] at hstep
    exact hstep

/-- Frame shape: every state of a call keeps the law of the frames exactly when no trip pushes
the frame of a class initializer for a method that declares local slots. -/
theorem frameLaw_iff (E : Env) (I : Interpreter) (hI : Served E I) (c : Call) (hsized : c.Sized E) :
    (∀ n m, callAt E I c n = .running m → FrameLaw E m) ↔
      ∀ n m, callAt E I c n = .running m → ¬ pushesBareFrame E m := by
  constructor
  · intro hall n m hm hbare
    obtain ⟨m', hm', hbroken⟩ := not_shaped_of_bare hI.registered hm hbare
    exact hbroken (hall (n + 1) m' hm')
  · intro hclean n m hm
    exact frameLaw_of_clean hI.registered hsized hclean hm

end Runs

/-- `static { int x = 7; }`. -/
def clinitLocal : Method where
  name := "<clinit>"
  flags := 0x0008
  numLocals := 1
  numRegs := 1
  code := [⟨.iconst, 0, 0, 0, 7⟩, ⟨.istore, 0, 0, 0, 0⟩, ⟨.returnVoid, 0, 0, 0, 0⟩]

def bareInitializer : Env where
  program := { methods := [clinitLocal, mainNew] }
  host := default

/-- The initializer stores to a slot its frame does not have. -/
theorem not_frameLaw_bareInitializer :
    callAt bareInitializer (.new bareInitializer.program) (.run "main" "()V" []) 3 = .undefined ∧
      ¬ ∀ n m, callAt bareInitializer (.new bareInitializer.program) (.run "main" "()V" []) n =
        .running m → FrameLaw bareInitializer m := by
  have hthree : callAt bareInitializer (.new bareInitializer.program)
      (.run "main" "()V" []) 3 = .undefined := by
    decide +kernel
  refine ⟨hthree, ?_⟩
  intro hall
  cases hflow : callAt bareInitializer (.new bareInitializer.program) (.run "main" "()V" []) 2 with
  | running m =>
    have hstep : (step bareInitializer m).finish = .undefined := by
      rw [callAt, hflow] at hthree
      exact hthree
    have hundefined : step bareInitializer m = .undefined := by
      cases hflow' : step bareInitializer m with
      | undefined => rfl
      | running m' | ended status m' =>
        rw [hflow'] at hstep
        cases hstep
    exact (hall 2 m hflow).defined hundefined
  | ended status m =>
    rw [callAt, hflow] at hthree
    cases hthree
  | undefined =>
    have htwo : callAt bareInitializer (.new bareInitializer.program)
        (.run "main" "()V" []) 2 ≠ .undefined := by
      decide +kernel
    exact htwo hflow

/-- With an initializer that declares no slots the law holds, its frame included. -/
theorem frameLaw_emptyInitializer : frameRecords (callAt clinitFirst (.new clinitFirst.program)
        (.run "main" "()V" []) 1) = [(0, []), (1, [])] ∧
      ∀ n m, callAt clinitFirst (.new clinitFirst.program) (.run "main" "()V" []) n =
        .running m → FrameLaw clinitFirst m :=
  ⟨by decide +kernel, (frameLaw_iff clinitFirst _ .new (.run "main" "()V" []) trivial).mpr
    fun _ _ _ hbare => hbare.2.2.2.2 rfl⟩

end B2Compiler.Interp
