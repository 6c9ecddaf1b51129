import B2Compiler.Interp.StartCases
import B2Compiler.Interp.StepCases

/-!
# Laws of the runtime and its frames

Services, unwinding, pushes and returns treat the frames in a handful of ways.  A law that
these ways keep holds behind every trip; what an instance still has to look at are the two
monitor instructions and the frames that are pushed.
-/

namespace B2Compiler.Interp

open Rbc Runtime Machine

/-- `P` is kept by what every handler does to the runtime and its frames, and leaves `Z`
behind where the last frame goes.  The services lie inside of `Q`. -/
structure FrameInvariant (E : Env) (Q : Runtime → Runtime → Prop)
    (P : Runtime → List Frame → Prop) (Z : Runtime → Prop) : Prop where
  services : Primitives Q
  inside : ∀ {rt rt' frames}, rt.Keeps rt' → Q rt rt' → P rt frames → P rt' frames
  setTop : ∀ {rt f g rest}, g.method = f.method → g.monitors = f.monitors →
    g.regs.length = f.regs.length → g.locals.length = f.locals.length →
    g.callerPc = f.callerPc → P rt (f :: rest) → P rt (g :: rest)
  handler : ∀ {rt f rest} h exc, P rt (f :: rest) →
    P rt (enterHandler (method E.program f.method) f h exc :: rest)
  pop : ∀ {rt f g rest}, P rt (f :: g :: rest) →
    P { rt with heap := releaseMonitorsLIFO rt.heap f } (g :: rest)
  last : ∀ {rt f}, P rt [f] → Z { rt with heap := releaseMonitorsLIFO rt.heap f }
  none : ∀ {rt}, P rt [] → Z rt

/-- The law along a flow, with `U` for what the source leaves undefined. -/
def FlowHolds (P : Runtime → List Frame → Prop) (Z : Runtime → Prop) (U : Prop) : Flow → Prop
  | .running m => P m.rt m.frames
  | .ended _ m => Z m.rt
  | .undefined => U

section Laws

variable {E : Env} {Q : Runtime → Runtime → Prop} {P : Runtime → List Frame → Prop}
  {Z : Runtime → Prop} {U : Prop} {m m₁ : Machine} {f : Frame} {rest : List Frame} {ins : Ins}
  {flow : Flow}

theorem FlowHolds.record (h : FlowHolds P Z U flow) (mIdx site : Nat) (kind : DispatchSiteKind)
    (r t : Nat) : FlowHolds P Z U (flow.map (recordDispatch mIdx site kind r t)) := by
  cases flow with
  | running m | ended status m | undefined => exact h

theorem law_count (h : P m.rt m.frames) (cfg : InterpConfig) (g : InterpStats → InterpStats) :
    P (m.count cfg g).rt (m.count cfg g).frames := by
  unfold Machine.count
  split <;> exact h

theorem resumeCaller_same (p : Program) (callee : Method) (isVoid : Bool) (v : Value)
    (caller : Frame) :
    (resumeCaller p callee isVoid v caller).method = caller.method ∧
      (resumeCaller p callee isVoid v caller).monitors = caller.monitors ∧
      (resumeCaller p callee isVoid v caller).regs.length = caller.regs.length ∧
      (resumeCaller p callee isVoid v caller).locals = caller.locals ∧
      (resumeCaller p callee isVoid v caller).callerPc = caller.callerPc := by
  unfold resumeCaller
  dsimp only
  split <;> split <;> (try split) <;>
    exact ⟨rfl, rfl, by first | rfl | exact List.length_set, rfl, rfl⟩

namespace FrameInvariant

variable (H : FrameInvariant E Q P Z)
include H

/-- Unwinding gives back the record of each frame it pops. -/
theorem unwinds (exc : Nat) (frames : List Frame) :
    ∀ rt : Runtime, P rt frames →
      match unwind E.program exc frames rt with
      | (some fs, rt') => P rt' fs
      | (none, rt') => Z rt' := by
  induction frames with
  | nil => exact fun rt h => H.none h
  | cons f rest ih =>
    intro rt h
    rw [unwind]
    have hk := findHandler_within keeps_primitives (method E.program f.method) f.pc exc
      (method E.program f.method).handlers rt
    have hq := findHandler_within H.services (method E.program f.method) f.pc exc
      (method E.program f.method).handlers rt
    generalize findHandler (method E.program f.method) f.pc exc
      (method E.program f.method).handlers rt = found at hk hq
    obtain ⟨handler, rt₁⟩ := found
    have h₁ := H.inside hk hq h
    cases handler with
    | some handler => exact H.handler handler exc h₁
    | none =>
      cases rest with
      | nil => exact H.last h₁
      | cons g rest => exact ih _ (H.pop h₁)

theorem throws (h : P m.rt m.frames) (exc : Nat) :
    FlowHolds P Z U (throwException E m exc) := by
  have hcount := law_count h E.cfg fun s => { s with exceptions := s.exceptions + 1 }
  unfold throwException
  dsimp only
  generalize m.count E.cfg (fun s => { s with exceptions := s.exceptions + 1 }) = m₁ at hcount
  have hunwound := H.unwinds exc m₁.frames m₁.rt hcount
  split
  all_goals
    rename_i heq
    rw [heq] at hunwound
    exact hunwound

theorem raises (h : P m.rt m.frames) (cls msg : String) :
    FlowHolds P Z U (raise E m cls msg) :=
  H.throws (m := { m with rt := (m.rt.makeException cls msg).2 })
    (H.inside (keeps_primitives.makeException m.rt cls msg)
      (H.services.makeException m.rt cls msg) h) _

theorem pushes {g : Frame} (h : P m.rt (g :: m.frames)) (target : Nat) : FlowHolds P Z U (.running
      { ({ m with frames := g :: m.frames }.count E.cfg fun s =>
          { s with calls := s.calls + 1 }) with
        rt := ({ m with frames := g :: m.frames }.count E.cfg fun s =>
          { s with calls := s.calls + 1 }).rt.bumpInvocations target }) :=
  H.inside (keeps_primitives.bumpInvocations _ target) (H.services.bumpInvocations _ target)
    (law_count (m := { m with frames := g :: m.frames }) h E.cfg _)

/-- A call, when the law holds with the frame it pushes. -/
theorem calls {t : Nat} (h : P m.rt m.frames)
    (hpush : (method E.program t).isAbstract = false → isNative (method E.program t) = false →
      m.frames.length < E.cfg.maxFrames →
      P m.rt (calleeFrame (method E.program t) t ins f :: m.frames)) :
    FlowHolds P Z U (pushCall E m f ins t) := by
  unfold pushCall
  dsimp only
  split
  · exact H.raises h _ _
  rename_i hreal
  rw [Bool.or_eq_true, not_or, Bool.not_eq_true, Bool.not_eq_true] at hreal
  split
  · exact H.raises h _ _
  · rename_i hroom
    exact H.pushes (hpush hreal.1 hreal.2 (by omega)) t

/-- The start of a class initializer, when the law holds with the frame it pushes. -/
theorem inits {cls : Nat} (h : P (m.rt.markInitialized cls) m.frames)
    (hpush : m.frames.length < E.cfg.maxFrames → P (m.rt.markInitialized cls)
      ({ method := (m.rt.markInitialized cls).findClinit E.program cls
         callerPc := f.pc
         regs := List.replicate (method E.program
          ((m.rt.markInitialized cls).findClinit E.program cls)).numRegs .bottom } :: m.frames)) :
    FlowHolds P Z U (pushClinit E m f cls) := by
  unfold pushClinit
  dsimp only
  split
  · exact H.raises (m := { m with rt := m.rt.markInitialized cls }) h _ _
  · rename_i hroom
    exact H.pushes (m := { m with rt := m.rt.markInitialized cls }) (hpush (by omega)) _

theorem returns (h : P m.rt m.frames) (hf : m.frames = f :: rest) :
    FlowHolds P Z U (execReturn E m f ins) := by
  rw [hf] at h
  unfold execReturn
  dsimp only
  rw [show (m.setHeap (releaseMonitorsLIFO m.rt.heap f)).frames.tail = rest by
    show m.frames.tail = rest
    rw [hf]
    rfl]
  cases rest with
  | nil => exact H.last h
  | cons caller rest =>
    obtain ⟨hmethod, hmonitors, hregs, hlocals, hcaller⟩ := resumeCaller_same E.program
      (method E.program f.method) (decide (ins.op = .returnVoid))
      (if decide (ins.op = .returnVoid) = true then .bottom else f.reg ins.aReg) caller
    exact H.setTop hmethod hmonitors hregs (congrArg List.length hlocals) hcaller (H.pop h)

/-- The law behind a handler, but for the monitor instructions and the frames it pushes. -/
theorem execs (h : P m.rt m.frames) (hf : m.frames = f :: rest)
    (henter : ∀ {heap}, m.rt.heap.monitorenter (f.reg ins.aReg).asObj = (.none, heap) →
      P { m.rt with heap }
        ({ f with monitors := (f.reg ins.aReg).asObj :: f.monitors, pc := f.pc + 1 } :: rest))
    (hexit : ∀ {heap}, ins.op = .monitorexit →
      m.rt.heap.monitorexit (f.reg ins.aReg).asObj = (.none, heap) →
      P { m.rt with heap }
        ({ f with monitors := f.monitors.erase (f.reg ins.aReg).asObj, pc := f.pc + 1 } :: rest))
    (hinit : ∀ {m₁ cls}, Near m m₁ → P m₁.rt m₁.frames → m₁.rt.needsInit E.program cls = true →
      (m.rt.Registered → initTrigger E m.rt f ins = true) →
      FlowHolds P Z U (pushClinit E m₁ f cls))
    (hcall : ∀ {m₁ t}, Near m m₁ → P m₁.rt m₁.frames → invokeTarget E m f ins = some t →
      FlowHolds P Z U (pushCall E m₁ f ins t))
    (hundefined : accessesLocal ins.op = true → f.locals.length ≤ ins.immIdx → U) :
    FlowHolds P Z U (exec E m f ins) := by
  have hshape := shape_exec (m := m) (services_within H.services E f ins)
  have hinside : ∀ {m₁ : Machine}, Near m m₁ ∧ Q m.rt m₁.rt → P m₁.rt m₁.frames := by
    rintro m₁ ⟨hnear, hq⟩
    rw [hnear.frames]
    exact H.inside hnear.keeps hq h
  have htail : m.frames.tail = rest := by rw [hf, List.tail_cons]
  generalize exec E m f ins = flow at hshape
  cases hshape with
  | @stay m₁ f' hs hmethod hmonitors hregs hlocals hcaller =>
    have h₁ := hinside hs
    rw [hs.1.frames, hf] at h₁
    show P m₁.rt (f' :: m₁.frames.tail)
    rw [hs.1.frames, htail]
    exact H.setTop hmethod hmonitors hregs hlocals hcaller h₁
  | @enter heap _ hlock =>
    show P { m.rt with heap } (_ :: m.frames.tail)
    rw [htail]
    exact henter hlock
  | @exit heap hop hlock =>
    show P { m.rt with heap } (_ :: m.frames.tail)
    rw [htail]
    exact hexit hop hlock
  | init hs _ hneeds htrigger => exact hinit hs.1 (hinside hs) hneeds htrigger
  | call hs htarget => exact (hcall hs.1 (hinside hs) htarget).record _ _ _ _ _
  | throws hs => exact H.throws (hinside hs) _
  | ret _ => exact H.returns h hf
  | undefined hop hslot => exact hundefined hop hslot

theorem steps (h : P m.rt m.frames) (hempty : m.frames = [] → U)
    (hexec : ∀ {f rest ins} g, m.frames = f :: rest → fetch E f = some ins →
      P (m.count E.cfg g).rt (m.count E.cfg g).frames →
      FlowHolds P Z U (exec E (m.count E.cfg g) f ins)) :
    FlowHolds P Z U (step E m) := by
  unfold step
  split
  · rename_i hnil
    exact hempty hnil
  rename_i f rest hf
  split
  · exact H.raises h _ _
  · rename_i ins hins
    exact hexec _ hf hins (law_count h E.cfg _)

theorem entersLoop (h : P m.rt m.frames) : FlowHolds P Z U (enterLoop E m) := by
  have hclass : P (internProgram E m).rt (internProgram E m).frames :=
    H.inside (keeps_classId m.rt _) (H.services.classId m.rt _) h
  unfold enterLoop
  generalize internProgram E m = m₁ at hclass
  dsimp only
  split
  · rename_i f rest hf
    split
    · apply H.throws
      show P m₁.rt ({ f with pendingException := 0 } :: m₁.frames.tail)
      rw [hf] at hclass
      rw [hf, List.tail_cons]
      exact H.setTop (f := f) rfl rfl rfl rfl rfl hclass
    · exact hclass
  · exact hclass

end FrameInvariant

end Laws

end B2Compiler.Interp
