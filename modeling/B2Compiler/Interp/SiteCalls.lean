import B2Compiler.Interp.InlineCache

/-!
# Calls at a site

The call an instruction is about to make, and what a trip does to the dispatch profiles: a trip
that makes no call leaves them alone, and a trip that makes one writes the profile of its site
behind the push, unless an exception of the push left the whole stack.
-/

namespace B2Compiler.Interp

open Rbc

/-! ## Calls at a site -/

/-- What a call goes to: a method found by the class of the receiver, a method the instruction
names, or a builtin. -/
inductive Callee where
  | receiver (recvClass target : Nat)
  | static (target : Nat)
  | builtin
  deriving DecidableEq, Repr

namespace Callee

/-- The receiver class the profile is written with. -/
def recvClass : Callee → Nat
  | receiver cls _ => cls
  | static _ | builtin => kDispatchNoRecvClass

/-- The target the profile is written with. -/
def target : Callee → Nat
  | receiver _ t | static t => t
  | builtin => kDispatchNoTarget

/-- Does the call open a frame, or run in place? -/
def opens (E : Env) (m : Machine) : Callee → Bool
  | receiver _ t | static t =>
    let callee := Runtime.method E.program t
    !(callee.isAbstract || isNative callee) && decide (m.frames.length < E.cfg.maxFrames)
  | builtin => true

def openedFor : Callee → Option Nat
  | receiver cls _ => some cls
  | static _ | builtin => none

/-- Does the instruction name the method? -/
def isStatic : Callee → Bool
  | static _ => true
  | receiver _ _ | builtin => false

/-- Does the callee have a frame? -/
def framed : Callee → Bool
  | receiver _ _ | static _ => true
  | builtin => false

end Callee

/-- Is the opcode a call through a cache site? -/
def siteOp : Op → Bool
  | .invokevirtual | .invokeinterface | .invokevirtualQuick | .invokeinterfaceQuick => true
  | _ => false

/-- The key of an instruction's profile: its pc, or the cache site it names. -/
def siteKey (ins : Ins) (pc : Nat) : Nat :=
  match ins.op with
  | .invokevirtualQuick | .invokeinterfaceQuick => ins.immIdx
  | _ => pc

/-- The call of a virtual or interface invoke at a cache site. -/
def virtualCall (E : Env) (m : Machine) (f : Frame) (ins : Ins) (site : Nat) :
    Option (Nat × Callee) :=
  let recv := f.reg ins.aReg
  match virtualTarget E m f.method site recv (poolAt E f ins.immIdx) with
  | .cached t | .resolved t => some (site, .receiver (m.rt.heap.classOf recv.asObj) t)
  | .builtin b =>
    if (m.rt.execBuiltin E.host b ((f.regs.drop ins.aReg).take ins.bReg)).isSome then
      some (site, .builtin)
    else none
  | .missing => none

/-- The call an instruction is about to make, with the key of its profile; `none` when it makes
no call, raises before it gets to one, or starts a class initializer instead. -/
def siteCall (E : Env) (m : Machine) (f : Frame) (ins : Ins) : Option (Nat × Callee) :=
  let ref := poolAt E f ins.immIdx
  let meth := Runtime.method E.program f.method
  match ins.op with
  | .invokevirtual | .invokeinterface =>
    if (f.reg ins.aReg).isNull then none else virtualCall E m f ins f.pc
  | .invokevirtualQuick | .invokeinterfaceQuick =>
    if (f.reg ins.aReg).isNull ∨ meth.code.length ≤ ins.immIdx ∨
        (siteIC m.siteICs f.method ins.immIdx = none ∧ (meth.cp.length ≤ ins.immIdx ∨
          (ref.kind ≠ .methodRef ∧ ref.kind ≠ .interfaceMethodRef))) then none
    else virtualCall E m f ins ins.immIdx
  | .invokespecial =>
    if (f.reg ins.aReg).isNull then none
    else (Runtime.resolveMethod E.program ref).map fun t => (f.pc, .static t)
  | .invokestatic =>
    if m.rt.needsInit E.program m.programClass then none
    else (Runtime.resolveMethod E.program ref).map fun t => (f.pc, .static t)
  | .invokespecialQuick =>
    if (f.reg ins.aReg).isNull ∨ E.program.methods.length ≤ ins.immIdx then none
    else some (f.pc, .static ins.immIdx)
  | .invokestaticQuick =>
    if E.program.methods.length ≤ ins.immIdx ∨ m.rt.needsInit E.program m.programClass then none
    else some (f.pc, .static ins.immIdx)
  | _ => none

/-- The call a machine is about to make: method and key of its site, and the callee. -/
def tripCall (E : Env) (m : Machine) : Option (Nat × Nat × Callee) :=
  match m.frames with
  | [] => none
  | f :: _ =>
    match fetch E f with
    | none => none
    | some ins => (siteCall E m f ins).map fun c => (f.method, c.1, c.2)

def Flow.dispatched (E : Env) (mIdx site : Nat) : Flow → Option Callee
  | .running m =>
    match tripCall E m with
    | some (i, j, c) => if i = mIdx ∧ j = site ∧ c.opens E m = true then some c else none
    | none => none
  | _ => none

/-- The calls dispatched at a site in the first `n` trips of a session. -/
def dispatches (E : Env) (first : Call) (calls : List Call) (mIdx site : Nat) : Nat → List Callee
  | 0 => []
  | n + 1 => dispatches E first calls mIdx site n ++
      ((flowAt E first calls n).dispatched E mIdx site).toList

/-- The next trip of a flow raises an exception where it should open the frame of a call at the
site, and the exception is caught. -/
def Flow.CatchesTrap (E : Env) (mIdx site : Nat) : Flow → Prop
  | .running m => ∃ c m', tripCall E m = some (mIdx, site, c) ∧ c.opens E m = false ∧
      step E m = .running m'
  | _ => False

/-- Check of `Flow.CatchesTrap`. -/
def Flow.catchesTrap (E : Env) (mIdx site : Nat) : Flow → Bool
  | .running m =>
    match tripCall E m, step E m with
    | some (i, j, c), .running _ => i == mIdx && j == site && !c.opens E m
    | _, _ => false
  | _ => false

theorem Flow.catchesTrap_iff {E : Env} {mIdx site : Nat} {flow : Flow} :
    flow.catchesTrap E mIdx site = true ↔ flow.CatchesTrap E mIdx site := by
  cases flow with
  | running m =>
    unfold catchesTrap CatchesTrap
    dsimp only
    split
    · rename_i i j c m' hcall hstep
      rw [hcall, hstep]
      simp only [Bool.and_eq_true, beq_iff_eq, Bool.not_eq_true']
      constructor
      · rintro ⟨⟨rfl, rfl⟩, hopen⟩
        exact ⟨c, m', rfl, hopen, rfl⟩
      · rintro ⟨c', m'', heq, hopen, _⟩
        cases heq
        exact ⟨⟨rfl, rfl⟩, hopen⟩
    · rename_i hother
      constructor
      · exact fun h => absurd h Bool.false_ne_true
      · rintro ⟨c, m', hcall, _, hstep⟩
        exact (hother mIdx site c m' hcall hstep).elim
  | ended status m | undefined => exact ⟨fun h => absurd h Bool.false_ne_true, False.elim⟩

instance (E : Env) (mIdx site : Nat) (flow : Flow) : Decidable (flow.CatchesTrap E mIdx site) :=
  decidable_of_iff _ Flow.catchesTrap_iff

/-! ## What writes a profile -/

def Flow.HasProfiles (ps : List (List DispatchSiteProfile)) : Flow → Prop
  | .running m | .ended _ m => m.dispatchProfiles = ps
  | .undefined => True

section Trips

variable {E : Env} {m : Machine} {f : Frame} {ins : Ins}

theorem Machine.count_dispatchProfiles (m : Machine) (cfg : InterpConfig)
    (g : InterpStats → InterpStats) : (m.count cfg g).dispatchProfiles = m.dispatchProfiles := by
  unfold Machine.count
  split <;> rfl

theorem Machine.count_frames (m : Machine) (cfg : InterpConfig)
    (g : InterpStats → InterpStats) : (m.count cfg g).frames = m.frames := by
  unfold Machine.count
  split <;> rfl

theorem hasProfiles_throw (m : Machine) (exc : Nat) :
    (throwException E m exc).HasProfiles m.dispatchProfiles := by
  have hcount := Machine.count_dispatchProfiles m E.cfg fun s =>
    { s with exceptions := s.exceptions + 1 }
  unfold throwException
  dsimp only
  generalize m.count E.cfg (fun s => { s with exceptions := s.exceptions + 1 }) = m₁ at hcount
  split
  · exact hcount
  · exact hcount

theorem hasProfiles_raise (m : Machine) (cls msg : String) :
    (raise E m cls msg).HasProfiles m.dispatchProfiles :=
  hasProfiles_throw { m with rt := (m.rt.makeException cls msg).2 } _

theorem hasProfiles_pushClinit (m : Machine) (f : Frame) (cls : Nat) :
    (pushClinit E m f cls).HasProfiles m.dispatchProfiles := by
  unfold pushClinit
  dsimp only
  split
  · exact hasProfiles_raise { m with rt := m.rt.markInitialized cls } _ _
  · show (Machine.count _ _ _).dispatchProfiles = m.dispatchProfiles
    rw [Machine.count_dispatchProfiles]

theorem hasProfiles_return : (execReturn E m f ins).HasProfiles m.dispatchProfiles := by
  unfold execReturn
  dsimp only
  split <;> rfl

/-- Only calls through a cache site write profiles as a service. -/
theorem services_profiles (hop : siteOp ins.op = false) :
    Services E f ins fun m m₁ => m₁.dispatchProfiles = m.dispatchProfiles where
  refl _ := rfl
  trans h h' := h'.trans h
  count m g := Machine.count_dispatchProfiles m E.cfg g
  trace _ _ := rfl
  record hsite := by
    rcases hsite with ⟨_, hop' | hop'⟩ | ⟨_, hop' | hop'⟩ <;> rw [hop'] at hop <;> cases hop
  classId _ _ := rfl
  resolveField _ _ := rfl
  internString _ _ := rfl
  classObject _ _ := rfl
  newInstance _ _ := rfl
  newArray _ _ _ := rfl
  newRefArray _ _ _ := rfl
  newMultiArray _ _ _ := rfl
  makeException _ _ _ := rfl
  execBuiltin _ := rfl
  bumpBackedge _ _ := rfl
  storeStatic _ _ _ := rfl
  loadField _ _ _ := rfl
  storeField _ := rfl
  storeElem _ := rfl
  fillField _ _ := rfl
  fillCall _ _ := rfl

/-- An instruction that is no call leaves the profiles alone. -/
theorem hasProfiles_exec (hop : siteOp ins.op = false) (htarget : invokeTarget E m f ins = none) :
    (exec E m f ins).HasProfiles m.dispatchProfiles := by
  have hshape : Shape E (fun m m₁ => m₁.dispatchProfiles = m.dispatchProfiles) m f ins
      (exec E m f ins) := shape_exec (services_profiles hop)
  generalize exec E m f ins = flow at hshape
  cases hshape with
  | stay h _ _ _ _ _ => exact h
  | enter _ _ | exit _ _ => rfl
  | @init m₁ cls h _ _ _ =>
    rw [← h]
    exact hasProfiles_pushClinit m₁ f cls
  | call _ hcall =>
    rw [htarget] at hcall
    cases hcall
  | @throws m₁ exc h =>
    rw [← h]
    exact hasProfiles_throw m₁ exc
  | ret _ => exact hasProfiles_return
  | undefined _ _ => trivial

/-! ## Serving a call -/

def Callee.push (E : Env) (m : Machine) (f : Frame) (ins : Ins) : Callee → Flow
  | .receiver _ t | .static t => pushCall E m f ins t
  | .builtin => next m f

/-- The flow of a call is that of the push, with the profile written behind it. -/
def Callee.serve (E : Env) (m : Machine) (f : Frame) (ins : Ins) (site : Nat) (c : Callee) :
    Flow :=
  (c.push E m f ins).map (recordDispatch f.method site (siteKind ins.op) c.recvClass c.target)

/-- What an instruction does for its call, with some machine that differs from `m` neither in
frames nor in profiles. -/
def Serves (E : Env) (m : Machine) (f : Frame) (ins : Ins) (flow : Flow) :
    Option (Nat × Callee) → Prop
  | none => flow.HasProfiles m.dispatchProfiles
  | some (site, c) => ∃ m₁ : Machine, m₁.frames = m.frames ∧
      m₁.dispatchProfiles = m.dispatchProfiles ∧ flow = c.serve E m₁ f ins site

theorem serves_raise {m₁ : Machine} (h : m₁.dispatchProfiles = m.dispatchProfiles)
    (cls msg : String) : Serves E m f ins (raise E m₁ cls msg) none := by
  show (raise E m₁ cls msg).HasProfiles m.dispatchProfiles
  rw [← h]
  exact hasProfiles_raise m₁ cls msg

theorem serves_static (t : Nat) (site : Nat) (hsite : site = f.pc) :
    Serves E m f ins (callStatic E m f ins t) (some (site, .static t)) := by
  subst hsite
  exact ⟨m, rfl, rfl, rfl⟩

theorem serves_probe {cont : Flow} {c : Option (Nat × Callee)} (cls : Nat)
    (hcont : Serves E m f ins cont c) :
    Serves E m f ins (match initClassIfNeeded E m f cls with
      | some flow => flow
      | none => cont) (if m.rt.needsInit E.program cls then none else c) := by
  unfold initClassIfNeeded
  by_cases hneeds : m.rt.needsInit E.program cls = true
  · rw [if_pos hneeds, if_pos hneeds]
    exact hasProfiles_pushClinit m f cls
  · rw [if_neg hneeds, if_neg hneeds]
    exact hcont

theorem serves_dispatchVirtual (site : Nat) :
    Serves E m f ins (dispatchVirtual E m f ins site (siteKind ins.op) (poolAt E f ins.immIdx))
      (virtualCall E m f ins site) := by
  have hmiss : ∀ g, (m.count E.cfg g).frames = m.frames ∧
      (m.count E.cfg g).dispatchProfiles = m.dispatchProfiles := fun g =>
    ⟨Machine.count_frames m E.cfg g, Machine.count_dispatchProfiles m E.cfg g⟩
  unfold dispatchVirtual virtualCall
  dsimp only
  cases virtualTarget E m f.method site (f.reg ins.aReg) (poolAt E f ins.immIdx) with
  | cached t => exact ⟨_, (hmiss _).1, (hmiss _).2, rfl⟩
  | builtin b =>
    dsimp only
    rw [Machine.count_rt]
    cases hexec : m.rt.execBuiltin E.host b ((f.regs.drop ins.aReg).take ins.bReg) with
    | none => exact serves_raise (hmiss _).2 _ _
    | some rt =>
      refine ⟨{ m.count E.cfg (fun s => { s with icMisses := s.icMisses + 1 }) with rt },
        (hmiss _).1, (hmiss _).2, rfl⟩
  | resolved t =>
    refine ⟨_, ?_, ?_, rfl⟩
    · exact (hmiss _).1
    · exact (hmiss _).2
  | missing => exact serves_raise (hmiss _).2 _ _

theorem serves_invokevirtual : Serves E m f ins (execInvokevirtual E m f ins)
      (if (f.reg ins.aReg).isNull then none else virtualCall E m f ins f.pc) := by
  unfold execInvokevirtual
  split
  · exact serves_raise rfl _ _
  · exact serves_dispatchVirtual f.pc

theorem serves_invokevirtualQuick : Serves E m f ins (execInvokevirtualQuick E m f ins)
      (if (f.reg ins.aReg).isNull ∨ (Runtime.method E.program f.method).code.length ≤ ins.immIdx ∨
          (siteIC m.siteICs f.method ins.immIdx = none ∧
            ((Runtime.method E.program f.method).cp.length ≤ ins.immIdx ∨
              ((poolAt E f ins.immIdx).kind ≠ .methodRef ∧
                (poolAt E f ins.immIdx).kind ≠ .interfaceMethodRef))) then none
      else virtualCall E m f ins ins.immIdx) := by
  unfold execInvokevirtualQuick
  dsimp only
  split
  · rename_i hnull
    rw [if_pos (Or.inl hnull)]
    exact serves_raise rfl _ _
  rename_i hnull
  split
  · rename_i hrange
    rw [if_pos (Or.inr (Or.inl hrange))]
    exact serves_raise rfl _ _
  rename_i hrange
  split
  · rename_i hcold
    rw [if_pos (Or.inr (Or.inr hcold))]
    exact serves_raise (Machine.count_dispatchProfiles m E.cfg _) _ _
  · rename_i hcold
    rw [if_neg (by rintro (h | h | h) <;> contradiction)]
    exact serves_dispatchVirtual ins.immIdx

theorem serves_invokespecial : Serves E m f ins (execInvokespecial E m f ins)
      (if (f.reg ins.aReg).isNull then none
      else (Runtime.resolveMethod E.program (poolAt E f ins.immIdx)).map fun t =>
        (f.pc, .static t)) := by
  unfold execInvokespecial
  dsimp only
  split
  · exact serves_raise rfl _ _
  · cases Runtime.resolveMethod E.program (poolAt E f ins.immIdx) with
    | none => exact serves_raise rfl _ _
    | some t => exact serves_static t f.pc rfl

theorem serves_invokestatic : Serves E m f ins (execInvokestatic E m f ins)
      (if m.rt.needsInit E.program m.programClass then none
      else (Runtime.resolveMethod E.program (poolAt E f ins.immIdx)).map fun t =>
        (f.pc, .static t)) := by
  unfold execInvokestatic
  dsimp only
  cases Runtime.resolveMethod E.program (poolAt E f ins.immIdx) with
  | none =>
    rw [Option.map_none, ite_self]
    exact serves_raise rfl _ _
  | some t => exact serves_probe m.programClass (serves_static t f.pc rfl)

theorem serves_invokespecialQuick : Serves E m f ins (execInvokespecialQuick E m f ins)
      (if (f.reg ins.aReg).isNull ∨ E.program.methods.length ≤ ins.immIdx then none
      else some (f.pc, .static ins.immIdx)) := by
  unfold execInvokespecialQuick
  split
  · rename_i hnull
    rw [if_pos (Or.inl hnull)]
    exact serves_raise rfl _ _
  rename_i hnull
  split
  · rename_i hrange
    rw [if_pos (Or.inr hrange)]
    exact serves_raise rfl _ _
  · rename_i hrange
    rw [if_neg (by rintro (h | h) <;> contradiction)]
    exact serves_static ins.immIdx f.pc rfl

theorem serves_invokestaticQuick : Serves E m f ins (execInvokestaticQuick E m f ins)
      (if E.program.methods.length ≤ ins.immIdx ∨ m.rt.needsInit E.program m.programClass then none
      else some (f.pc, .static ins.immIdx)) := by
  unfold execInvokestaticQuick
  split
  · rename_i hrange
    rw [if_pos (Or.inl hrange)]
    exact serves_raise rfl _ _
  rename_i hrange
  have hstatic : Serves E m f ins (callStatic E m f ins ins.immIdx)
      (some (f.pc, .static ins.immIdx)) := serves_static ins.immIdx f.pc rfl
  have hprobe := serves_probe m.programClass hstatic
  simp only [hrange, false_or]
  exact hprobe

/-- Every handler serves the call of its instruction. -/
theorem serves_exec : Serves E m f ins (exec E m f ins) (siteCall E m f ins) := by
  unfold siteCall
  dsimp only
  split
  case h_9 =>
    -- What is left makes no call.
    apply hasProfiles_exec
    · unfold siteOp
      split <;> first | rfl | contradiction
    · unfold invokeTarget
      dsimp only
      split <;> first | rfl | contradiction
  all_goals
    rename_i hop
    simp only [exec, hop]
  · exact serves_invokevirtual
  · exact serves_invokevirtual
  · exact serves_invokevirtualQuick
  · exact serves_invokevirtualQuick
  · exact serves_invokespecial
  · exact serves_invokestatic
  · exact serves_invokespecialQuick
  · exact serves_invokestaticQuick

/-! ## One trip -/

theorem siteCall_count (g : InterpStats → InterpStats) :
    siteCall E (m.count E.cfg g) f ins = siteCall E m f ins := by
  unfold Machine.count
  split <;> rfl

theorem push_of_opens (f : Frame) (ins : Ins) {c : Callee} (h : c.opens E m = true) :
    ∃ m', c.push E m f ins = .running m' ∧ m'.dispatchProfiles = m.dispatchProfiles ∧
      (c.framed = true → m'.frames =
        calleeFrame (Runtime.method E.program c.target) c.target ins f :: m.frames) := by
  have hpush : ∀ t, (!((Runtime.method E.program t).isAbstract ||
      isNative (Runtime.method E.program t)) && decide (m.frames.length < E.cfg.maxFrames)) = true →
      ∃ m', pushCall E m f ins t = .running m' ∧ m'.dispatchProfiles = m.dispatchProfiles ∧
        m'.frames = calleeFrame (Runtime.method E.program t) t ins f :: m.frames := by
    intro t hopen
    rw [Bool.and_eq_true, Bool.not_eq_true', decide_eq_true_eq] at hopen
    unfold pushCall
    dsimp only
    rw [if_neg (by rw [hopen.1]; exact Bool.false_ne_true), if_neg (by omega)]
    refine ⟨_, rfl, ?_, ?_⟩
    · exact Machine.count_dispatchProfiles _ E.cfg _
    · exact Machine.count_frames _ E.cfg _
  cases c with
  | receiver cls t | static t =>
    obtain ⟨m', hrun, hprofiles, hframes⟩ := hpush t h
    exact ⟨m', hrun, hprofiles, fun _ => hframes⟩
  | builtin => exact ⟨_, rfl, rfl, fun hframed => absurd hframed Bool.false_ne_true⟩

theorem opens_eq_false (f : Frame) (ins : Ins) {c : Callee}
    (h : ∀ m', c.push E m f ins ≠ .running m') :
    c.opens E m = false := by
  by_contra hopen
  rw [Bool.not_eq_false] at hopen
  obtain ⟨m', hrun, _⟩ := push_of_opens f ins hopen
  exact h m' hrun

theorem hasProfiles_push (c : Callee) : (c.push E m f ins).HasProfiles m.dispatchProfiles := by
  have hpush : ∀ t, (pushCall E m f ins t).HasProfiles m.dispatchProfiles := by
    intro t
    unfold pushCall
    dsimp only
    split
    · exact hasProfiles_raise m _ _
    · split
      · exact hasProfiles_raise m _ _
      · exact Machine.count_dispatchProfiles _ E.cfg _
  cases c with
  | receiver cls t | static t => exact hpush t
  | builtin => exact rfl

inductive ProfileTrip (E : Env) (m : Machine) (flow : Flow) : Prop where
  /-- No call was made, or its exception left the stack. -/
  | kept (h : flow.HasProfiles m.dispatchProfiles)
      (hcall : ∀ i j c, tripCall E m = some (i, j, c) → c.opens E m = false)
  /-- A call was recorded. -/
  | recorded {i j : Nat} {c : Callee} {kind : DispatchSiteKind} {m' : Machine}
      (hcall : tripCall E m = some (i, j, c)) (hflow : flow = .running m')
      (hprofiles : m'.dispatchProfiles =
        (recordDispatch i j kind c.recvClass c.target m).dispatchProfiles)

theorem recordDispatch_congr {m₁ : Machine} (h : m₁.dispatchProfiles = m.dispatchProfiles)
    (i j : Nat) (kind : DispatchSiteKind) (r t : Nat) :
    (recordDispatch i j kind r t m₁).dispatchProfiles =
      (recordDispatch i j kind r t m).dispatchProfiles := by
  unfold recordDispatch
  rw [h]

theorem tripCall_eq {rest : List Frame} (hf : m.frames = f :: rest) (hins : fetch E f = some ins) :
    tripCall E m = (siteCall E m f ins).map fun c => (f.method, c.1, c.2) := by
  unfold tripCall
  rw [hf]
  dsimp only
  rw [hins]

theorem profileTrip_step (E : Env) (m : Machine) : ProfileTrip E m (step E m) := by
  unfold step
  split
  · rename_i hframes
    refine .kept trivial ?_
    intro i j c hcall
    rw [tripCall, hframes] at hcall
    cases hcall
  · rename_i f rest hframes
    split
    · rename_i hins
      refine .kept (hasProfiles_raise m _ _) ?_
      intro i j c hcall
      rw [tripCall, hframes] at hcall
      dsimp only at hcall
      rw [hins] at hcall
      cases hcall
    · rename_i ins hins
      have hserves : Serves E
          (m.count E.cfg fun s => { s with instructions := s.instructions + 1 }) f ins _ _ :=
        serves_exec
      rw [siteCall_count] at hserves
      have hcount := Machine.count_dispatchProfiles m E.cfg fun s =>
        { s with instructions := s.instructions + 1 }
      have hframes' := Machine.count_frames m E.cfg fun s =>
        { s with instructions := s.instructions + 1 }
      generalize m.count E.cfg (fun s => { s with instructions := s.instructions + 1 }) = m₀
        at hserves hcount hframes' ⊢
      have htrip := tripCall_eq hframes hins
      generalize exec E m₀ f ins = flow at hserves ⊢
      cases hcall : siteCall E m f ins with
      | none =>
        rw [hcall] at hserves htrip
        refine .kept (hcount ▸ hserves) ?_
        intro i j c hsome
        rw [htrip] at hsome
        cases hsome
      | some call =>
        obtain ⟨site, c⟩ := call
        rw [hcall] at hserves htrip
        obtain ⟨m₁, hm₁, hprofiles, rfl⟩ := hserves
        have hpush : (c.push E m₁ f ins).HasProfiles m₁.dispatchProfiles := hasProfiles_push c
        have hopens : c.opens E m₁ = c.opens E m := by
          cases c <;> simp only [Callee.opens, hm₁, hframes']
        have hkept (hno : ∀ m'', c.push E m₁ f ins ≠ .running m'') {i j : Nat} {c' : Callee}
            (hsome : tripCall E m = some (i, j, c')) : c'.opens E m = false := by
          rw [htrip] at hsome
          cases hsome
          rw [← hopens]
          exact opens_eq_false f ins fun m'' hopened => hno m'' hopened
        unfold Callee.serve
        cases hrun : c.push E m₁ f ins with
        | running m' =>
          rw [hrun] at hpush
          refine .recorded htrip rfl (recordDispatch_congr ?_ _ _ _ _ _)
          exact hpush.trans (hprofiles.trans hcount)
        | ended status m' =>
          rw [hrun] at hpush
          exact .kept (hpush.trans (hprofiles.trans hcount)) fun i j c' hsome =>
            hkept (by simp [hrun]) hsome
        | undefined =>
          exact .kept trivial fun i j c' hsome => hkept (by simp [hrun]) hsome

theorem virtualCall_origin {site' site : Nat} {c : Callee}
    (h : virtualCall E m f ins site' = some (site, c)) : site' = site ∧ c.isStatic = false := by
  unfold virtualCall at h
  dsimp only at h
  split at h
  · cases h
    exact ⟨rfl, rfl⟩
  · cases h
    exact ⟨rfl, rfl⟩
  · split at h
    · cases h
      exact ⟨rfl, rfl⟩
    · cases h
  · cases h

/-- The key and the kind of a callee are those of the instruction. -/
theorem siteCall_origin {site : Nat} {c : Callee} (h : siteCall E m f ins = some (site, c)) :
    siteKey ins f.pc = site ∧ c.isStatic = !siteOp ins.op := by
  have hvirtual : ∀ {p : Prop} [Decidable p] {site' : Nat},
      (if p then none else virtualCall E m f ins site') = some (site, c) →
      site' = site ∧ c.isStatic = false := by
    intro p _ site' h
    rw [Option.ite_none_left_eq_some] at h
    exact virtualCall_origin h.2
  have hstatic : ∀ {p : Prop} [Decidable p] {t : Option Nat},
      (if p then none else t.map fun t => (f.pc, Callee.static t)) = some (site, c) →
      f.pc = site ∧ c.isStatic = true := by
    intro p _ t h
    rw [Option.ite_none_left_eq_some, Option.map_eq_some_iff] at h
    obtain ⟨_, t', _, heq⟩ := h
    cases heq
    exact ⟨rfl, rfl⟩
  unfold siteCall at h
  unfold siteKey siteOp
  dsimp only at h
  split at h
  case h_9 => cases h
  all_goals
    rename_i hop
    rw [hop]
  case h_5 | h_6 => exact hstatic h
  case h_7 | h_8 => exact hstatic (t := some ins.immIdx) h
  all_goals exact hvirtual h

theorem tripCall_origin {i j : Nat} {c : Callee} (h : tripCall E m = some (i, j, c)) :
    ∃ pc ins, (Runtime.method E.program i).code[pc]? = some ins ∧ siteKey ins pc = j ∧
      c.isStatic = !siteOp ins.op := by
  unfold tripCall at h
  split at h
  · cases h
  rename_i f rest hframes
  split at h
  · cases h
  · rename_i ins hins
    obtain ⟨⟨site, c'⟩, hsite, heq⟩ := Option.map_eq_some_iff.mp h
    cases heq
    exact ⟨f.pc, ins, hins, siteCall_origin hsite⟩

theorem frames_of_opens {i j : Nat} {c : Callee} (hcall : tripCall E m = some (i, j, c))
    (hopen : c.opens E m = true) (hframed : c.framed = true) :
    ∃ f rest ins m', m.frames = f :: rest ∧ fetch E f = some ins ∧ step E m = .running m' ∧
      m'.frames = calleeFrame (Runtime.method E.program c.target) c.target ins f :: m.frames := by
  have htrip := hcall
  unfold tripCall at htrip
  split at htrip
  · cases htrip
  rename_i f rest hframes
  split at htrip
  · cases htrip
  rename_i ins hins
  obtain ⟨⟨site, c'⟩, hsite, heq⟩ := Option.map_eq_some_iff.mp htrip
  have hc : c' = c := congrArg (fun x : Nat × Nat × Callee => x.2.2) heq
  rw [hc] at hsite
  have hserves : Serves E
      (m.count E.cfg fun s => { s with instructions := s.instructions + 1 }) f ins _ _ :=
    serves_exec
  rw [siteCall_count, hsite] at hserves
  obtain ⟨m₁, hm₁, _, hflow⟩ := hserves
  rw [Machine.count_frames] at hm₁
  have hopen' : c.opens E m₁ = true := by
    rw [← hopen]
    cases c <;> simp only [Callee.opens, hm₁]
  obtain ⟨m', hrun, _, hpushed⟩ := push_of_opens f ins hopen'
  refine ⟨f, rest, ins, recordDispatch f.method site (siteKind ins.op) c.recvClass c.target m',
    hframes, hins, ?_, ?_⟩
  · unfold step
    rw [hframes]
    dsimp only
    rw [hins]
    dsimp only
    rw [hflow, Callee.serve, hrun]
    rfl
  · exact (hpushed hframed).trans (by rw [hm₁])

end Trips

end B2Compiler.Interp
