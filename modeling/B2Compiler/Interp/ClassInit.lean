import B2Compiler.Interp.StepCases
import B2Compiler.Interp.StartCases

/-!
# Class initialisation over the life of an interpreter

An interpreter serves any sequence of `run` and `resume` calls.  Over such a
session the first use of the program class has to run the class's initializer,
once, to its end, and then the instruction that used the class; no later use runs
it again.  The loop marks the class before it looks the initializer up, and the
lookup of a marked class answers method `0`: the law holds when the initializer is
method `0`, has no local slots and finds room on the stack, and when nothing else
enters it.
-/

namespace B2Compiler.Interp

open Rbc List

/-! ## The law -/

/-- Is the frame one of a class initializer? -/
def ofClinit (E : Env) (f : Frame) : Bool := isClinit (Runtime.method E.program f.method)

def initializers (E : Env) : Flow → Nat
  | .running m => m.frames.countP (ofClinit E)
  | _ => 0

/-- The frame in which a method without arguments begins. -/
def activation (p : Program) (id callerPc : Nat) : Frame :=
  { method := id
    callerPc
    locals := replicate (Runtime.method p id).numLocals .bottom
    regs := replicate (Runtime.method p id).numRegs .bottom }

/-- Is the initializer started over `base` still on the stack, with `base` below it? -/
def Inside (E : Env) (base frames : List Frame) : Prop :=
  ∃ above g, frames = above ++ g :: base ∧ ofClinit E g = true

/-- Has an exception left the initializer for a handler of `base`? -/
def Unwound (E : Env) (base frames : List Frame) : Prop :=
  ∃ inner g rest h exc, base = inner ++ g :: rest ∧
    frames = enterHandler (Runtime.method E.program g.method) g h exc :: rest ∧
    h ∈ (Runtime.method E.program g.method).handlers ∧ h.start ≤ g.pc ∧ g.pc < h.stop

/-- The first use of the program class happens at trip `n`, in machine `m`. -/
def FirstTrigger (E : Env) (first : Call) (calls : List Call) (n : Nat) (m : Machine) : Prop :=
  flowAt E first calls n = .running m ∧ triggers E m = true ∧
    ∀ k < n, ∀ m', flowAt E first calls k = .running m' → triggers E m' = false

/-- The initialisation law of a session. -/
structure InitOnce (E : Env) (first : Call) (calls : List Call) : Prop where
  /-- The first use starts the class's own initializer over the frames as they are. -/
  runs : ∀ n m c, FirstTrigger E first calls n m → E.program.find kClinitName kClinitDesc = some c →
    ∃ f rest m', m.frames = f :: rest ∧ flowAt E first calls (n + 1) = .running m' ∧
      m'.frames = activation E.program c f.pc :: m.frames
  /-- No initializer frame comes from anywhere else. -/
  once : initializers E (flowAt E first calls 0) = 0 ∧
    ∀ n, initializers E (flowAt E first calls (n + 1)) ≤ initializers E (flowAt E first calls n) ∨
      (∃ m, FirstTrigger E first calls n m) ∧ initializers E (flowAt E first calls (n + 1)) =
          initializers E (flowAt E first calls n) + 1
  /-- Until the initializer is left, the frames of the first use are untouched; it is
  left for the very instruction that used the class, or for an exception handler. -/
  completes : ∀ n m c, FirstTrigger E first calls n m →
    E.program.find kClinitName kClinitDesc = some c → ∀ j m' m'', n < j →
    flowAt E first calls j = .running m' → Inside E m.frames m'.frames →
    flowAt E first calls (j + 1) = .running m'' →
      Inside E m.frames m''.frames ∨ (m''.frames = m.frames ∧ triggers E m'' = true) ∨
        Unwound E m.frames m''.frames
  /-- A return of the initializer goes back to that instruction. -/
  returns : ∀ n m c, FirstTrigger E first calls n m →
    E.program.find kClinitName kClinitDesc = some c → ∀ j m' g ins, n < j →
    flowAt E first calls j = .running m' → m'.frames = g :: m.frames → ofClinit E g = true →
    fetch E g = some ins →
    ins.op ∈ [.returnVoid, .ireturn, .lreturn, .freturn, .dreturn, .areturn] →
      ∃ m'', flowAt E first calls (j + 1) = .running m'' ∧ m''.frames = m.frames ∧
        triggers E m'' = true
  /-- Every later use finds the class initialised and just executes. -/
  later : ∀ n m, flowAt E first calls n = .running m → triggers E m = true →
    ¬ FirstTrigger E first calls n m → ∀ cls, m.rt.needsInit E.program cls = false

/-- A call that does not enter the initializer by itself. -/
def Call.Regular (E : Env) : Call → Prop
  | .run name descriptor _ => ∀ id, E.program.find name descriptor = some id →
      isClinit (Runtime.method E.program id) = false
  | .resume frame => ofClinit E frame = false

/-- What a state has to meet: a first use finds the initializer as method `0`, without
local slots and with room for its frame, and no call goes to an initializer. -/
structure StepOk (E : Env) (m : Machine) : Prop where
  initializer : triggers E m = true → m.rt.started E.program.className = false →
    ∀ c, E.program.find kClinitName kClinitDesc = some c →
      c = 0 ∧ (Runtime.method E.program 0).numLocals = 0 ∧ m.frames.length < E.cfg.maxFrames
  noCall : ∀ t, callTarget E m = some t → isClinit (Runtime.method E.program t) = false

/-- The registry is consistent and knows the program class. -/
structure Good (E : Env) (m : Machine) : Prop where
  registered : m.rt.Registered
  named : ∃ ci : ClassInfo, m.rt.classes[m.programClass]? = some ci ∧ ci.name = E.program.className

section

variable {E : Env} {m m' m₁ : Machine}

theorem Good.keeps (h : Good E m) (hk : m.rt.Keeps m'.rt)
    (hclass : m'.programClass = m.programClass) : Good E m' := by
  obtain ⟨ci, hci, hname⟩ := h.named
  obtain ⟨ci', hci', hname', _⟩ := hk.old _ ci hci
  exact ⟨hk.registered h.registered, ci', by rw [hclass]; exact hci', hname'.trans hname⟩

/-! ## The initializer's push -/

theorem probe_fires {f : Frame} {cls : Nat} {cont : Flow}
    (h : m₁.rt.needsInit E.program cls = true) :
    (match initClassIfNeeded E m₁ f cls with
      | some flow => flow
      | none => cont) = pushClinit E m₁ f cls := by
  unfold initClassIfNeeded
  rw [if_pos h]

theorem step_of_trigger (hgood : Good E m) (hstarted : m.rt.started E.program.className = false)
    (hfind : (E.program.find "<clinit>" "()V").isSome = true) (htrigger : triggers E m = true) :
    ∃ f rest m₁ cls, m.frames = f :: rest ∧ Near m m₁ ∧
      m₁.rt.needsInit E.program cls = true ∧ step E m = pushClinit E m₁ f cls := by
  obtain ⟨f, rest, hf⟩ : ∃ f rest, m.frames = f :: rest := by
    cases hf : m.frames with
    | nil =>
      rw [triggers, atFetch, hf] at htrigger
      cases htrigger
    | cons f rest => exact ⟨f, rest, rfl⟩
  obtain ⟨ins, hins⟩ : ∃ ins, fetch E f = some ins := by
    cases hins : fetch E f with
    | none =>
      rw [triggers, atFetch, hf] at htrigger
      dsimp only at htrigger
      rw [hins] at htrigger
      cases htrigger
    | some ins => exact ⟨ins, rfl⟩
  have htrig : initTrigger E m.rt f ins = true := by
    rw [triggers, atFetch_eq hf hins] at htrigger
    exact htrigger
  -- the machine the handler runs on
  obtain ⟨m₂, hcount, hrt, hstep⟩ := step_fetched hf hins
  rw [hstep]
  have hneeds : ∀ {rt : Runtime} {cls : Nat}, m₂.rt.Keeps rt →
      (∃ ci : ClassInfo, rt.classes[cls]? = some ci ∧ ci.name = E.program.className) →
      rt.needsInit E.program cls = true := by
    intro rt cls hk hnamed
    have hk' := hcount.keeps.trans hk
    exact (Runtime.needsInit_iff (hk'.registered hgood.registered)).mpr
      ⟨hnamed, by rw [hk'.started_eq]; exact hstarted, hfind⟩
  have hreg₂ : m₂.rt.Registered := hcount.keeps.registered hgood.registered
  have hclassId : ∀ s, s = E.program.className →
      (m₂.rt.classId s).2.needsInit E.program (m₂.rt.classId s).1 = true := by
    intro s hs
    obtain ⟨ci, hci, hname⟩ := Runtime.classId_name hreg₂ s
    exact hneeds (Runtime.keeps_classId _ _) ⟨ci, hci, hname.trans hs⟩
  have hclass : m₂.rt.needsInit E.program m₂.programClass = true :=
    hneeds (.refl _) ((hgood.keeps hcount.keeps hcount.programClass).named)
  have hstatic : ∀ (c : Const) access, c.kind = .fieldRef → c.str = E.program.className →
      ∃ m₁ cls, Near m m₁ ∧ m₁.rt.needsInit E.program cls = true ∧
        withStatic E m₂ f c access = pushClinit E m₁ f cls := by
    intro c access hkind hstr
    unfold withStatic
    have hk := Runtime.keeps_resolveField m₂.rt c
    split
    · rename_i heq
      unfold Runtime.resolveField at heq
      rw [if_neg (by rw [hkind]; decide)] at heq
      dsimp only at heq
      split at heq <;> cases heq
    · rename_i rf rt heq
      rw [heq] at hk
      obtain ⟨ci, hci, hname⟩ := Runtime.resolveField_cls hreg₂ heq
      have hfires : rt.needsInit E.program rf.cls = true :=
        hneeds hk ⟨ci, hci, hname.trans hstr⟩
      exact ⟨{ m₂ with rt }, rf.cls, hcount.withRt hk, hfires, probe_fires hfires⟩
  have hbuiltin : ∀ c : Const, (m.rt.builtinStatic c).isNone = true →
      m₂.rt.builtinStatic c = none := by
    intro c hc
    rw [hrt]
    exact Option.isNone_iff_eq_none.mp hc
  unfold initTrigger at htrig
  dsimp only at htrig
  split at htrig
  · rename_i hop
    have hfires := hclassId _ (beq_iff_eq.mp htrig)
    refine ⟨f, rest, _, _, hf, hcount.withRt (Runtime.keeps_classId _ _), hfires, ?_⟩
    simp only [exec, hop]
    exact probe_fires hfires
  · rename_i hop
    rw [Bool.and_eq_true, beq_iff_eq, beq_iff_eq] at htrig
    have hfires := hclassId _ htrig.2
    refine ⟨f, rest, _, _, hf, hcount.withRt (Runtime.keeps_classId _ _), hfires, ?_⟩
    simp only [exec, hop, execLdc, htrig.1]
    exact probe_fires hfires
  · rename_i hop
    rw [Bool.and_eq_true, Bool.and_eq_true, beq_iff_eq, beq_iff_eq] at htrig
    obtain ⟨m₁, cls, hnear, hfires, heq⟩ :=
      hstatic (poolAt E f ins.immIdx) (loadStatic E f ins) htrig.1.1 htrig.1.2
    refine ⟨f, rest, m₁, cls, hf, hnear, hfires, ?_⟩
    simp only [exec, hop, execGetstatic, hbuiltin _ htrig.2]
    exact heq
  · rename_i hop
    rw [Bool.and_eq_true, Bool.and_eq_true, beq_iff_eq, beq_iff_eq] at htrig
    obtain ⟨m₁, cls, hnear, hfires, heq⟩ :=
      hstatic (poolAt E f ins.immIdx) (storeStatic f ins) htrig.1.1 htrig.1.2
    refine ⟨f, rest, m₁, cls, hf, hnear, hfires, ?_⟩
    simp only [exec, hop, execPutstatic, hbuiltin _ htrig.2]
    exact heq
  · rename_i hop
    obtain ⟨t, ht⟩ := Option.isSome_iff_exists.mp htrig
    refine ⟨f, rest, m₂, _, hf, hcount, hclass, ?_⟩
    simp only [exec, hop, execInvokestatic, ht]
    exact probe_fires hclass
  · rename_i hop
    have hlt : ¬ E.program.methods.length ≤ ins.immIdx := by
      have := of_decide_eq_true htrig
      omega
    refine ⟨f, rest, m₂, _, hf, hcount, hclass, ?_⟩
    simp only [exec, hop, execInvokestaticQuick, if_neg hlt]
    exact probe_fires hclass
  · cases htrig

/-- The frame the push builds for an initializer found as method `0`. -/
def firstMethodFrame (p : Program) (callerPc : Nat) : Frame :=
  { method := 0
    callerPc
    regs := replicate (Runtime.method p 0).numRegs .bottom }

/-- With room on the stack the push succeeds.  The lookup runs on the class already
marked, so the frame is that of method `0`. -/
theorem pushClinit_spec {f : Frame} {cls : Nat} (hgood : Good E m₁)
    (hneeds : m₁.rt.needsInit E.program cls = true)
    (hroom : m₁.frames.length < E.cfg.maxFrames) :
    ∃ m', pushClinit E m₁ f cls = .running m' ∧
      m'.frames = firstMethodFrame E.program f.pc :: m₁.frames ∧
      Good E m' ∧ m'.rt.started E.program.className = true := by
  obtain ⟨⟨ci, hci, hname⟩, _⟩ := (Runtime.needsInit_iff hgood.registered).mp hneeds
  obtain ⟨hreg, hstarted, hnames⟩ :=
    Runtime.markInitialized_spec hgood.registered hci hname
  have hzero : (m₁.rt.markInitialized cls).findClinit E.program cls = 0 := by
    unfold Runtime.findClinit
    rw [if_neg]
    intro hagain
    have := ((Runtime.needsInit_iff hreg).mp hagain).2.1
    rw [hstarted] at this
    cases this
  let m₂ : Machine :=
    { m₁ with
      rt := m₁.rt.markInitialized cls
      frames := firstMethodFrame E.program f.pc :: m₁.frames }
  have hgood₂ : Good E m₂ := by
    obtain ⟨ci', hci', hname'⟩ := hgood.named
    obtain ⟨ci'', hci'', hname''⟩ := hnames _ ci' hci'
    exact ⟨hreg, ci'', hci'', hname''.trans hname'⟩
  have hcount := (Near.refl m₂).count E.cfg fun s => { s with calls := s.calls + 1 }
  have hbump := hcount.withRt (Runtime.keeps_primitives.bumpInvocations _ 0)
  refine ⟨_, ?_, hbump.frames, hgood₂.keeps hbump.keeps hbump.programClass, ?_⟩
  · unfold pushClinit
    dsimp only
    rw [if_neg (by omega), hzero]
    rfl
  · rw [hbump.keeps.started_eq]
    exact hstarted

end

theorem resumeCaller_method (p : Program) (callee : Method) (isVoid : Bool) (v : Value)
    (caller : Frame) : (resumeCaller p callee isVoid v caller).method = caller.method := by
  unfold resumeCaller
  dsimp only
  split <;> split <;> (try split) <;> rfl

/-- A returning initializer leaves its caller as it was. -/
theorem resumeCaller_of_clinit {p : Program} {callee : Method} (h : isClinit callee = true)
    (isVoid : Bool) (v : Value) (caller : Frame) :
    resumeCaller p callee isVoid v caller = caller := by
  have hdesc : callee.descriptor = "()V" := by
    unfold isClinit at h
    rw [Bool.and_eq_true, beq_iff_eq, beq_iff_eq] at h
    exact h.2
  have hvoid : parseReturn callee.descriptor = .bottom := by
    rw [hdesc]
    decide
  unfold resumeCaller
  dsimp only
  rw [if_pos h, if_neg (fun hc => hc.2 hvoid)]

/-! ## The start of a call -/

/-- What serving a call may begin with. -/
def Begins (E : Env) (rt : Runtime) : Flow → Prop
  | .running m => rt.Keeps m.rt ∧ Good E m ∧ m.frames.countP (ofClinit E) = 0
  | .ended _ m => rt.Keeps m.rt
  | .undefined => False

section

variable {E : Env} {rt : Runtime} {m : Machine}

theorem Begins.finish {flow : Flow} (h : Begins E rt flow) : Begins E rt flow.finish := by
  cases flow with
  | running m | ended status m | undefined => exact h

theorem begins_refuse (hk : rt.Keeps m.rt) (cls msg : String) :
    Begins E rt (refuse E m cls msg) := by
  have hexc := hk.trans (Runtime.keeps_primitives.makeException m.rt cls msg)
  unfold refuse Machine.count
  dsimp only
  split <;> exact hexc

theorem internProgram_spec (hreg : m.rt.Registered) :
    (internProgram E m).frames = m.frames ∧ m.rt.Keeps (internProgram E m).rt ∧
      Good E (internProgram E m) := by
  have hk := Runtime.keeps_classId m.rt E.program.className
  exact ⟨rfl, hk, hk.registered hreg, Runtime.classId_name hreg E.program.className⟩

theorem begins_enterLoop {f : Frame} (hreg : rt.Registered) (hk : rt.Keeps m.rt)
    (hframes : m.frames = [f]) (hf : ofClinit E f = false) : Begins E rt (enterLoop E m) := by
  obtain ⟨hframes₁, hk₁, hgood⟩ : _ ∧ _ ∧ Good E (internProgram E m) :=
    internProgram_spec (hk.registered hreg)
  unfold enterLoop
  generalize internProgram E m = m₁ at hframes₁ hk₁ hgood
  have hall := hk.trans hk₁
  rw [hframes] at hframes₁
  dsimp only
  rw [hframes₁]
  dsimp only
  split
  · let f₀ : Frame := { f with pendingException := 0 }
    have hthrown : Thrown E (m₁.setTop f₀)
        (throwException E (m₁.setTop f₀) f.pendingException) := thrown_throw (.refl _) _
    generalize throwException E (m₁.setTop f₀) f.pendingException = flow at hthrown ⊢
    have htop : (m₁.setTop f₀).frames = [f₀] := by
      show f₀ :: m₁.frames.tail = _
      rw [hframes₁]
      rfl
    have hgood₀ : Good E (m₁.setTop f₀) := ⟨hgood.registered, hgood.named⟩
    cases hthrown with
    | @caught inner rest g h exc m' hsplit hframes' _ _ hkeeps hclass' =>
      rw [htop] at hsplit
      have hg : g.method = f.method ∧ rest = [] := by
        cases inner with
        | nil =>
          cases hsplit
          exact ⟨rfl, rfl⟩
        | cons a as => simp at hsplit
      refine ⟨hall.trans hkeeps, hgood₀.keeps hkeeps hclass', ?_⟩
      rw [hframes', hg.2]
      have hout : ofClinit E (enterHandler (Runtime.method E.program g.method) g h exc) =
          false := by
        show isClinit (Runtime.method E.program g.method) = false
        rw [hg.1]
        exact hf
      simp [hout]
    | ended hkeeps => exact hall.trans hkeeps
  · refine ⟨hall, hgood, ?_⟩
    rw [hframes₁]
    simp [hf]

theorem keeps_entryLock (entry : Method) (args : List Value) (rt : Runtime) :
    rt.Keeps (entryLock E entry args rt).2 := by
  refine entryLock_within Runtime.keeps_primitives (fun obj rt => ?_) entry args rt
  unfold lockObject
  split <;> exact Runtime.keeps_heap _ _

/-- Serving a regular call begins on a stack without initializers. -/
theorem begins_start {c : Call} {I : Interpreter} (hreg : I.rt.Registered)
    (hcall : c.Regular E) : Begins E I.rt (c.start E I) := by
  obtain ⟨flow, hstart, hcases⟩ := started_start (E := E) (I := I) c
  rw [hstart]
  apply Begins.finish
  cases hcases with
  | rejected => exact Runtime.Keeps.refl _
  | refused => exact begins_refuse (m := I.machine) (.refl I.rt) _ _
  | @unlocked _ _ _ args id rt hlock =>
    have hlocked := keeps_entryLock (E := E) (Runtime.method E.program id) args I.rt
    rw [hlock] at hlocked
    exact begins_refuse (m := { I.machine with rt }) hlocked _ _
  | @run _ _ args id _ hid _ =>
    exact begins_enterLoop hreg (Runtime.keeps_primitives.bumpInvocations I.rt id) rfl
      (hcall id hid)
  | @runLocked _ _ args id lock rt _ hid hlock =>
    have hlocked := keeps_entryLock (E := E) (Runtime.method E.program id) args I.rt
    rw [hlock] at hlocked
    exact begins_enterLoop hreg
      (hlocked.trans (Runtime.keeps_primitives.bumpInvocations rt id)) rfl (hcall id hid)
  | resume _ _ => exact begins_enterLoop hreg (Runtime.Keeps.refl I.rt) rfl hcall

end

/-! ## The invariant of a session -/

def FlowOk (E : Env) (b : Bool) : Flow → Prop
  | .running m => Good E m ∧ m.rt.started E.program.className = b
  | .ended _ m => m.rt.Registered ∧ m.rt.started E.program.className = b
  | .undefined => True

/-- Is the flow about to use the program class? -/
def flowTriggers (E : Env) : Flow → Bool
  | .running m => triggers E m
  | _ => false

/-- Was the program class used before trip `n`? -/
def usedBefore (E : Env) (first : Call) (calls : List Call) : Nat → Bool
  | 0 => false
  | n + 1 => usedBefore E first calls n || flowTriggers E (flowAt E first calls n)

structure SessionOk (E : Env) (b : Bool) (s : Session) : Prop where
  calls : ∀ c ∈ s.calls, c.Regular E
  flow : FlowOk E b s.flow

section

variable {E : Env} {m : Machine} {flow : Flow} {b : Bool}

theorem FlowOk.finish (h : FlowOk E b flow) : FlowOk E b flow.finish := by
  cases flow with
  | running m | ended status m => exact h
  | undefined => trivial

theorem Begins.flowOk {rt : Runtime} (h : Begins E rt flow) (hreg : rt.Registered)
    (hstarted : rt.started E.program.className = b) : FlowOk E b flow := by
  cases flow with
  | running m => exact ⟨h.2.1, by rw [h.1.started_eq]; exact hstarted⟩
  | ended status m => exact ⟨Runtime.Keeps.registered h hreg, by
      rw [Runtime.Keeps.started_eq h]; exact hstarted⟩
  | undefined => trivial

theorem not_started_of_needsInit {m₁ : Machine} {cls : Nat} (hgood : Good E m) (hnear : Near m m₁)
    (hneeds : m₁.rt.needsInit E.program cls = true) :
    m.rt.started E.program.className = false := by
  have hstarted := ((Runtime.needsInit_iff (hnear.keeps.registered hgood.registered)).mp hneeds).2.1
  rwa [hnear.keeps.started_eq] at hstarted

/-- A step that is not a first use leaves the flag alone. -/
theorem flowOk_of_stepped (h : Stepped E m flow) (hgood : Good E m)
    (hquiet : m.rt.started E.program.className = false → triggers E m = false) :
    FlowOk E (m.rt.started E.program.className) flow := by
  have hrun : ∀ {m' : Machine}, m.rt.Keeps m'.rt → m'.programClass = m.programClass →
      FlowOk E (m.rt.started E.program.className) (.running m') :=
    fun hk hclass => ⟨hgood.keeps hk hclass, hk.started_eq _⟩
  cases h with
  | stay _ _ _ hkeeps hclass => exact hrun hkeeps hclass
  | init _ hnear htrigger hneeds =>
    rw [hquiet (not_started_of_needsInit hgood hnear hneeds)] at htrigger
    cases htrigger
  | call _ _ hkeeps hclass | caught _ _ _ _ hkeeps hclass | ret _ _ hkeeps hclass =>
    exact hrun hkeeps hclass
  | ended hkeeps => exact ⟨hkeeps.registered hgood.registered, hkeeps.started_eq _⟩
  | undefined => trivial

theorem step_first {c : Nat} (hgood : Good E m) (hok : StepOk E m)
    (hfind : E.program.find kClinitName kClinitDesc = some c)
    (hstarted : m.rt.started E.program.className = false) (htrigger : triggers E m = true) :
    ∃ f rest m', m.frames = f :: rest ∧ step E m = .running m' ∧
      m'.frames = activation E.program c f.pc :: m.frames ∧ Good E m' ∧
      m'.rt.started E.program.className = true := by
  obtain ⟨f, rest, m₁, cls, hf, hnear, hneeds, hstep⟩ :=
    step_of_trigger hgood hstarted
      (by rw [show E.program.find "<clinit>" "()V" = some c from hfind]; rfl) htrigger
  obtain ⟨rfl, hlocals, hroom⟩ := hok.initializer htrigger hstarted c hfind
  obtain ⟨m', hpush, hframes, hgood', hstarted'⟩ :=
    pushClinit_spec (hgood.keeps hnear.keeps hnear.programClass) hneeds
      (by rw [hnear.frames]; exact hroom)
  refine ⟨f, rest, m', hf, hstep.trans hpush, ?_, hgood', hstarted'⟩
  rw [hframes, hnear.frames, activation, hlocals]
  rfl

/-- One trip of a session keeps the invariant; a use of the class sets the flag. -/
theorem SessionOk.next {s : Session} {c : Nat} (h : SessionOk E b s)
    (hfind : E.program.find kClinitName kClinitDesc = some c)
    (hok : ∀ m, s.flow = .running m → StepOk E m) :
    SessionOk E (b || flowTriggers E s.flow) (s.next E) := by
  obtain ⟨calls, flow⟩ := s
  unfold Session.next
  cases flow with
  | running m =>
    refine ⟨h.calls, FlowOk.finish ?_⟩
    obtain ⟨hgood, rfl⟩ := h.flow
    cases hstarted : m.rt.started E.program.className with
    | true =>
      have hflow := flowOk_of_stepped (stepped_step hgood.registered) hgood
        (by rw [hstarted]; exact fun h => absurd h (by decide))
      rw [hstarted] at hflow
      exact hflow
    | false =>
      cases htrigger : triggers E m with
      | true =>
        obtain ⟨_, _, m', _, hstep, _, hgood', hstarted'⟩ :=
          step_first hgood (hok m rfl) hfind hstarted htrigger
        rw [hstep]
        exact ⟨hgood', by rw [hstarted']; simp [flowTriggers, htrigger]⟩
      | false =>
        have hflow := flowOk_of_stepped (stepped_step hgood.registered) hgood (fun _ => htrigger)
        rw [hstarted] at hflow
        simpa [flowTriggers, htrigger] using hflow
  | ended status m =>
    show SessionOk E (b || false) _
    rw [Bool.or_false]
    cases calls with
    | nil => exact h
    | cons call calls =>
      have hbegin : Begins E m.rt (call.start E (.ofMachine m)) :=
        begins_start h.flow.1 (h.calls call (mem_cons_self ..))
      exact ⟨fun c' hc' => h.calls c' (mem_cons_of_mem _ hc'), hbegin.flowOk h.flow.1 h.flow.2⟩
  | undefined =>
    show SessionOk E (b || false) _
    rw [Bool.or_false]
    exact h

end

section

variable {E : Env} {first : Call} {calls : List Call} {c : Nat}

/-- The invariant holds throughout a session whose states meet the condition. -/
theorem sessionOk (hfind : E.program.find kClinitName kClinitDesc = some c)
    (hcalls : ∀ call ∈ first :: calls, call.Regular E)
    (hok : ∀ n m, flowAt E first calls n = .running m → StepOk E m) (n : Nat) :
    SessionOk E (usedBefore E first calls n) (session E first calls n) := by
  induction n with
  | zero =>
    obtain ⟨hreg, hstarted⟩ := Runtime.init_spec E.program E.program.className
    have hbegin : Begins E (Runtime.init E.program) (first.start E (.new E.program)) :=
      begins_start hreg (hcalls first (mem_cons_self ..))
    exact ⟨fun call hcall => hcalls call (mem_cons_of_mem _ hcall), hbegin.flowOk hreg hstarted⟩
  | succ n ih => exact ih.next hfind (hok n)

theorem usedBefore_eq_false {n : Nat} : usedBefore E first calls n = false ↔
      ∀ k < n, ∀ m, flowAt E first calls k = .running m → triggers E m = false := by
  induction n with
  | zero => simp [usedBefore]
  | succ n ih =>
    rw [usedBefore, Bool.or_eq_false_iff, ih]
    constructor
    · rintro ⟨hbefore, hlast⟩ k hk m hm
      by_cases hkn : k = n
      · subst hkn
        rw [hm] at hlast
        exact hlast
      · exact hbefore k (by omega) m hm
    · intro h
      refine ⟨fun k hk => h k (by omega), ?_⟩
      cases hflow : flowAt E first calls n with
      | running m => exact h n (by omega) m hflow
      | ended status m | undefined => rfl

/-- A method that counts as an initializer is found as one. -/
theorem find_of_clinit {p : Program} {id : Nat} (h : isClinit (Runtime.method p id) = true) :
    ∃ c, p.find kClinitName kClinitDesc = some c := by
  cases hfind : p.find kClinitName kClinitDesc with
  | some c => exact ⟨c, rfl⟩
  | none =>
    unfold Program.find at hfind
    rw [findIdx?_eq_none_iff] at hfind
    unfold Runtime.method at h
    rw [getD_eq_getElem?_getD] at h
    cases hget : p.methods[id]? with
    | none =>
      rw [hget] at h
      exact absurd h (by decide)
    | some meth =>
      rw [hget] at h
      have := hfind meth (mem_of_getElem? hget)
      rw [show (meth.name == kClinitName && meth.descriptor == kClinitDesc) = true from h] at this
      cases this

theorem isClinit_of_find {p : Program} {c : Nat}
    (h : p.find kClinitName kClinitDesc = some c) : isClinit (Runtime.method p c) = true := by
  unfold Program.find at h
  obtain ⟨hlt, hc, _⟩ := findIdx?_eq_some_iff_getElem.mp h
  unfold Runtime.method
  rw [getD_eq_getElem?_getD, getElem?_eq_getElem hlt]
  exact hc

/-! ## The frames of a session -/

theorem countP_of_stepped {m : Machine} {flow : Flow} (h : Stepped E m flow) (hgood : Good E m)
    (hok : StepOk E m)
    (hquiet : m.rt.started E.program.className = false → triggers E m = false) :
    initializers E flow ≤ m.frames.countP (ofClinit E) := by
  cases h with
  | @stay f f' rest m' hframes hframes' hmethod =>
    have hsame : ofClinit E f' = ofClinit E f := by
      unfold ofClinit
      rw [hmethod]
    show m'.frames.countP (ofClinit E) ≤ _
    rw [hframes', hframes, countP_cons, countP_cons, hsame]
  | init _ hnear htrigger hneeds =>
    rw [hquiet (not_started_of_needsInit hgood hnear hneeds)] at htrigger
    cases htrigger
  | @call g m' hframes htarget =>
    have hplain : ofClinit E g = false := hok.noCall g.method htarget
    show m'.frames.countP (ofClinit E) ≤ _
    rw [hframes, countP_cons, hplain]
    simp
  | @caught inner rest g h exc m' hframes hframes' =>
    have hsame : ofClinit E (enterHandler (Runtime.method E.program g.method) g h exc) =
        ofClinit E g := rfl
    show m'.frames.countP (ofClinit E) ≤ _
    rw [hframes', hframes, countP_append, countP_cons, countP_cons, hsame]
    omega
  | @ret f caller rest isVoid v m' hframes hframes' =>
    have hsame : ofClinit E (resumeCaller E.program (Runtime.method E.program f.method)
        isVoid v caller) = ofClinit E caller := by
      rw [ofClinit, resumeCaller_method]
      rfl
    show m'.frames.countP (ofClinit E) ≤ _
    rw [hframes', hframes, countP_cons, countP_cons, countP_cons, hsame]
    omega
  | ended | undefined => exact Nat.zero_le _

theorem initializers_finish (flow : Flow) : initializers E flow.finish = initializers E flow := by
  cases flow <;> rfl

theorem Begins.initializers {rt : Runtime} {flow : Flow} (h : Begins E rt flow) :
    initializers E flow = 0 := by
  cases flow with
  | running m => exact h.2.2
  | ended status m | undefined => rfl

theorem initializers_of_none (h : E.program.find kClinitName kClinitDesc = none) (flow : Flow) :
    initializers E flow = 0 := by
  cases flow with
  | running m =>
    show m.frames.countP (ofClinit E) = 0
    rw [countP_eq_zero]
    intro f _ hf
    obtain ⟨c, hc⟩ := find_of_clinit hf
    rw [h] at hc
    cases hc
  | ended status m | undefined => rfl

/-- A session that is not running a call has no frames after a trip, or those of a
fresh call. -/
theorem initializers_idle {s : Session} {b : Bool} (h : SessionOk E b s)
    (hidle : ∀ m, s.flow ≠ .running m) : initializers E (s.next E).flow = 0 := by
  obtain ⟨rem, flow⟩ := s
  unfold Session.next
  cases flow with
  | running m => exact absurd rfl (hidle m)
  | ended status m =>
    cases rem with
    | nil => rfl
    | cons call rem =>
      have hbegin : Begins E m.rt (call.start E (.ofMachine m)) :=
        begins_start h.flow.1 (h.calls call (mem_cons_self ..))
      exact hbegin.initializers
  | undefined => rfl

theorem initializers_next {n : Nat} (hok : SessionOk E (usedBefore E first calls n)
      (session E first calls n))
    (hfind : E.program.find kClinitName kClinitDesc = some c)
    (hstep : ∀ m, flowAt E first calls n = .running m → StepOk E m) :
    initializers E (flowAt E first calls (n + 1)) ≤ initializers E (flowAt E first calls n) ∨
      (∃ m, FirstTrigger E first calls n m) ∧ initializers E (flowAt E first calls (n + 1)) =
          initializers E (flowAt E first calls n) + 1 := by
  cases hflow : flowAt E first calls n with
  | running m =>
    have hs := hok.flow
    rw [show (session E first calls n).flow = .running m from hflow] at hs
    obtain ⟨hgood, hstarted⟩ := hs
    rw [flowAt_succ hflow, initializers_finish]
    by_cases hfirst : m.rt.started E.program.className = false ∧ triggers E m = true
    · right
      rw [hfirst.1] at hstarted
      refine ⟨⟨m, hflow, hfirst.2, usedBefore_eq_false.mp hstarted.symm⟩, ?_⟩
      obtain ⟨f, rest, m', _, hrun, hframes, _⟩ :=
        step_first hgood (hstep m hflow) hfind hfirst.1 hfirst.2
      have hown : ofClinit E (activation E.program c f.pc) = true := isClinit_of_find hfind
      rw [hrun]
      show m'.frames.countP (ofClinit E) = _
      rw [hframes, countP_cons, hown]
      rfl
    · left
      refine countP_of_stepped (stepped_step hgood.registered) hgood (hstep m hflow) ?_
      intro hfalse
      by_contra htrue
      rw [Bool.not_eq_false] at htrue
      exact hfirst ⟨hfalse, htrue⟩
  | ended status m | undefined =>
    left
    show initializers E ((session E first calls n).next E).flow ≤ 0
    rw [initializers_idle hok (fun m' hm' => by cases hflow.symm.trans hm')]

/-- From inside the initializer a step stays inside, returns to the frames of the
first use, or unwinds to a handler there. -/
theorem inside_of_stepped {m m' : Machine} {base : List Frame} (h : Stepped E m (.running m'))
    (hgood : Good E m) (hstarted : m.rt.started E.program.className = true)
    (hinside : Inside E base m.frames) :
    Inside E base m'.frames ∨ m'.frames = base ∨ Unwound E base m'.frames := by
  obtain ⟨above, g, hframes₀, hg⟩ := hinside
  generalize hflow : Flow.running m' = flow at h
  cases h with
  | @stay f f' rest m₂ hframes hframes' hmethod =>
    cases hflow
    left
    rw [hframes] at hframes₀
    rw [hframes']
    cases above with
    | nil =>
      cases hframes₀
      refine ⟨[], f', rfl, ?_⟩
      rw [ofClinit, hmethod]
      exact hg
    | cons a above =>
      cases hframes₀
      exact ⟨f' :: above, g, rfl, hg⟩
  | init _ hnear _ hneeds => cases hstarted.symm.trans (not_started_of_needsInit hgood hnear hneeds)
  | @call g' m₂ hframes =>
    cases hflow
    left
    exact ⟨g' :: above, g, by rw [hframes, hframes₀]; rfl, hg⟩
  | @caught inner rest x hd exc m₂ hframes hframes' hmem hcovers =>
    cases hflow
    rw [hframes] at hframes₀
    rcases append_eq_append_iff.mp hframes₀ with ⟨mid, hmid, hrest⟩ | ⟨mid, hmid, hrest⟩
    · -- the handler is above the initializer, or in it
      cases mid with
      | nil =>
        cases hrest
        exact Or.inl ⟨[], _, hframes', hg⟩
      | cons y mid =>
        cases hrest
        exact Or.inl ⟨_ :: mid, g, hframes', hg⟩
    · cases mid with
      | nil =>
        cases hrest
        exact Or.inl ⟨[], _, hframes', hg⟩
      | cons y mid =>
        cases hrest
        exact Or.inr (Or.inr ⟨mid, x, rest, hd, exc, rfl, hframes', hmem, hcovers⟩)
  | @ret f caller rest isVoid v m₂ hframes hframes' =>
    cases hflow
    rw [hframes] at hframes₀
    cases above with
    | nil =>
      cases hframes₀
      right
      left
      rw [hframes', resumeCaller_of_clinit hg]
    | cons a above =>
      left
      cases above with
      | nil =>
        cases hframes₀
        refine ⟨[], _, hframes', ?_⟩
        rw [ofClinit, resumeCaller_method]
        exact hg
      | cons a' above =>
        cases hframes₀
        exact ⟨_ :: above, g, hframes', hg⟩
  | ended | undefined => cases hflow

theorem triggers_of_frames {m m' : Machine} (hframes : m'.frames = m.frames)
    (h : triggers E m = true) : triggers E m' = true := by
  have hsame : ∀ f ins, initTrigger E m'.rt f ins = initTrigger E m.rt f ins := by
    intro f ins
    have hbuiltin : ∀ c, (m'.rt.builtinStatic c).isNone = (m.rt.builtinStatic c).isNone := by
      intro c
      unfold Runtime.builtinStatic
      split_ifs <;> rfl
    unfold initTrigger
    simp only [hbuiltin]
  rw [triggers, atFetch] at h ⊢
  rw [hframes]
  simp only [hsame]
  exact h

theorem step_return {m : Machine} {g caller : Frame} {rest : List Frame} {ins : Ins}
    (hframes : m.frames = g :: caller :: rest) (hins : fetch E g = some ins)
    (hop : ins.op ∈ [Op.returnVoid, .ireturn, .lreturn, .freturn, .dreturn, .areturn]) :
    ∃ m', step E m = .running m' ∧
      m'.frames = resumeCaller E.program (Runtime.method E.program g.method)
        (decide (ins.op = .returnVoid))
        (if ins.op = .returnVoid then .bottom else g.reg ins.aReg) caller :: rest := by
  obtain ⟨m₂, hnear, -, hstep⟩ := step_fetched hframes hins
  have hexec : exec E m₂ g ins = execReturn E m₂ g ins := by
    simp only [mem_cons, not_mem_nil, or_false] at hop
    unfold exec
    rcases hop with hop | hop | hop | hop | hop | hop <;> rw [hop]
  have htail : (m₂.setHeap (releaseMonitorsLIFO m₂.rt.heap g)).frames.tail = caller :: rest := by
    show m₂.frames.tail = _
    rw [hnear.frames, hframes]
    rfl
  rw [hstep, hexec]
  simp only [execReturn, htail, decide_eq_true_eq]
  exact ⟨_, rfl, rfl⟩

end

/-- In every session whose calls do not enter the initializer and whose states meet
the condition, the program class is initialised by its own initializer, once, between
two visits of the instruction that first used it. -/
theorem initOnce_of_stepOk (E : Env) (first : Call) (calls : List Call)
    (hcalls : ∀ call ∈ first :: calls, call.Regular E)
    (hok : ∀ n m, flowAt E first calls n = .running m → StepOk E m) :
    InitOnce E first calls := by
  have hunused : ∀ {n m}, FirstTrigger E first calls n m →
      usedBefore E first calls n = false := fun h => usedBefore_eq_false.mpr h.2.2
  -- in a program with an initializer the flag says whether the class was used
  have hflow : ∀ {c n m}, E.program.find kClinitName kClinitDesc = some c →
      flowAt E first calls n = .running m →
      Good E m ∧ m.rt.started E.program.className = usedBefore E first calls n := by
    intro c n m hfind hm
    have hs := (sessionOk hfind hcalls hok n).flow
    rw [show (session E first calls n).flow = .running m from hm] at hs
    exact hs
  have hfirst : ∀ {c n m}, FirstTrigger E first calls n m →
      E.program.find kClinitName kClinitDesc = some c →
      ∃ f rest m', m.frames = f :: rest ∧ flowAt E first calls (n + 1) = .running m' ∧
        m'.frames = activation E.program c f.pc :: m.frames := by
    intro c n m hft hfind
    obtain ⟨hgood, hstarted⟩ := hflow hfind hft.1
    rw [hunused hft] at hstarted
    obtain ⟨f, rest, m', hf, hstep, hframes, _⟩ :=
      step_first hgood (hok n m hft.1) hfind hstarted hft.2.1
    exact ⟨f, rest, m', hf, by rw [flowAt_succ hft.1, hstep]; rfl, hframes⟩
  have hused : ∀ {n m j}, FirstTrigger E first calls n m → n < j →
      usedBefore E first calls j = true := by
    intro n m j hft hlt
    by_contra hfalse
    rw [Bool.not_eq_true, usedBefore_eq_false] at hfalse
    have := hfalse n hlt m hft.1
    rw [hft.2.1] at this
    cases this
  refine ⟨fun n m c hft hfind => hfirst hft hfind, ?_, ?_, ?_, ?_⟩
  · have hstart : Begins E (Runtime.init E.program) (flowAt E first calls 0) :=
      begins_start (Runtime.init_spec E.program "").1 (hcalls first (mem_cons_self ..))
    refine ⟨hstart.initializers, fun n => ?_⟩
    cases hfind : E.program.find kClinitName kClinitDesc with
    | none =>
      left
      rw [initializers_of_none hfind]
      exact Nat.zero_le _
    | some c => exact initializers_next (sessionOk hfind hcalls hok n) hfind (hok n)
  · intro n m c hft hfind j m' m'' hlt hm' hinside hm''
    obtain ⟨hgood, hstarted⟩ := hflow hfind hm'
    rw [hused hft hlt] at hstarted
    have hstep : step E m' = .running m'' :=
      running_of_finish (by rw [← flowAt_succ hm']; exact hm'')
    have hcases := inside_of_stepped (hstep ▸ stepped_step hgood.registered) hgood hstarted hinside
    rcases hcases with h | h | h
    · exact Or.inl h
    · exact Or.inr (Or.inl ⟨h, triggers_of_frames h hft.2.1⟩)
    · exact Or.inr (Or.inr h)
  · intro n m c hft hfind j m' g ins hlt hm' hframes hg hins hop
    obtain ⟨f, rest, _, hf, _⟩ := hfirst hft hfind
    rw [hf] at hframes
    obtain ⟨m'', hstep, hframes''⟩ := step_return hframes hins hop
    have hback : m''.frames = m.frames := by
      rw [hframes'', resumeCaller_of_clinit hg, hf]
    exact ⟨m'', by rw [flowAt_succ hm', hstep]; rfl, hback, triggers_of_frames hback hft.2.1⟩
  · intro n m hm htrigger hnot cls
    by_contra hneeds
    rw [Bool.not_eq_false] at hneeds
    obtain ⟨c, hfind⟩ := Option.isSome_iff_exists.mp (Runtime.find_of_needsInit hneeds)
    obtain ⟨hgood, hstarted⟩ := hflow hfind hm
    have hfalse := ((Runtime.needsInit_iff hgood.registered).mp hneeds).2.1
    rw [hfalse] at hstarted
    exact hnot ⟨hm, htrigger, usedBefore_eq_false.mp hstarted.symm⟩

/-! ## Two programs

The same class twice: once with its initializer as the first method, once behind
`main`. -/

instance (E : Env) (m : Machine) : Decidable (StepOk E m) :=
  decidable_of_iff ((triggers E m = true → m.rt.started E.program.className = false →
        ∀ c ∈ E.program.find kClinitName kClinitDesc,
          c = 0 ∧ (Runtime.method E.program 0).numLocals = 0 ∧ m.frames.length < E.cfg.maxFrames) ∧
      ∀ t ∈ callTarget E m, isClinit (Runtime.method E.program t) = false)
    ⟨fun h => ⟨h.1, h.2⟩, fun h => ⟨h.initializer, h.noCall⟩⟩

/-- Does the state of a flow meet the condition? -/
def flowStepOk (E : Env) : Flow → Bool
  | .running m => decide (StepOk E m)
  | _ => true

/-- Methods of the frames on the stack of a flow. -/
def frameMethods : Flow → List Nat
  | .running m => m.frames.map Frame.method
  | _ => []

/-- `static { }`. -/
def emptyClinit : Method where
  name := "<clinit>"
  flags := 0x0008
  code := [⟨.returnVoid, 0, 0, 0, 0⟩]

/-- `static void main() { new Main(); }`, without the constructor call. -/
def mainNew : Method where
  name := "main"
  flags := 0x0008
  numRegs := 1
  code := [⟨.new, 0, 0, 0, 0⟩, ⟨.returnVoid, 0, 0, 0, 0⟩]
  cp := [{ kind := .klass, str := "Main" }]

def clinitFirst : Env where
  program := { methods := [emptyClinit, mainNew] }
  host := default

def clinitSecond : Env where
  program := { methods := [mainNew, emptyClinit] }
  host := default

/-- Has the call of a session been answered? -/
def Session.idle (s : Session) : Bool :=
  match s.calls, s.flow with
  | [], .ended _ _ => true
  | _, _ => false

/-- A session without calls left stays as it is. -/
theorem session_idle {E : Env} {first : Call} {calls : List Call} {n : Nat}
    (h : (session E first calls n).idle = true) (k : Nat) :
    (session E first calls (n + k)).idle = true := by
  induction k with
  | zero => exact h
  | succ k ih =>
    show ((session E first calls (n + k)).next E).idle = true
    generalize session E first calls (n + k) = s at ih ⊢
    obtain ⟨rem, flow⟩ := s
    cases flow with
    | running m => cases rem <;> cases ih
    | ended status m =>
      cases rem with
      | nil => rfl
      | cons call rem => cases ih
    | undefined => cases rem <;> cases ih

theorem initOnce_clinitFirst : InitOnce clinitFirst (.run "main" "()V" []) [] := by
  apply initOnce_of_stepOk
  · intro call hcall
    rw [mem_singleton] at hcall
    subst hcall
    intro id hid
    have hmain : clinitFirst.program.find "main" "()V" = some 1 := by decide +kernel
    cases hmain.symm.trans hid
    decide +kernel
  · have hsteps : ∀ n < 4, flowStepOk clinitFirst
        (flowAt clinitFirst (.run "main" "()V" []) [] n) = true := by
      decide +kernel
    have hidle : (session clinitFirst (.run "main" "()V" []) [] 4).idle = true := by
      decide +kernel
    intro n m hm
    by_cases hn : n < 4
    · have hstep := hsteps n hn
      rw [hm] at hstep
      exact of_decide_eq_true hstep
    have hrest := session_idle hidle (n - 4)
    rw [show 4 + (n - 4) = n by omega, Session.idle,
      show (session clinitFirst (.run "main" "()V" []) [] n).flow = .running m from hm] at hrest
    split at hrest
    · rename_i heq
      cases heq
    · cases hrest

theorem not_initOnce_clinitSecond : ¬ InitOnce clinitSecond (.run "main" "()V" []) [] := by
  intro h
  have htrigger : flowTriggers clinitSecond
      (flowAt clinitSecond (.run "main" "()V" []) [] 0) = true := by decide +kernel
  have hnext : frameMethods (flowAt clinitSecond (.run "main" "()V" []) [] 1) = [0, 0] := by
    decide +kernel
  cases hflow : flowAt clinitSecond (.run "main" "()V" []) [] 0 with
  | running m =>
    rw [hflow] at htrigger
    obtain ⟨f, rest, m', hf, hm', hframes⟩ :=
      h.runs 0 m 1 ⟨hflow, htrigger, by simp⟩ (by decide +kernel)
    rw [hm'] at hnext
    rw [show frameMethods (.running m') = m'.frames.map Frame.method from rfl, hframes] at hnext
    cases hnext
  | ended status m | undefined =>
    rw [hflow] at htrigger
    cases htrigger

end B2Compiler.Interp
