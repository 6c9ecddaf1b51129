import B2Compiler.Interp.ClassInit
import B2Compiler.Passes.DescTypes
import B2Compiler.Rbc.VerifierSound

/-!
# Calls and their results

All consumers of a method descriptor, the interpreter's calls and returns among them,
agree with the verifier exactly on plain descriptors.  The interpreter's part is a law
of whole sessions: when the activation an invoke pushed returns a value, the invoke's
destination holds it and the caller goes on behind the invoke.
-/

namespace B2Compiler.Interp

open Rbc Passes Ir List Nat Runtime

/-! ## Register files along a session -/

structure FramesOk (E : Env) (m : Machine) : Prop where
  registered : m.rt.Registered
  regs : ∀ f ∈ m.frames, (method E.program f.method).numRegs ≤ f.regs.length

def FlowFrames (E : Env) : Flow → Prop
  | .running m => FramesOk E m
  | .ended _ m => m.rt.Registered
  | .undefined => True

section Frames

variable {E : Env} {m m₁ : Machine} {flow : Flow}

theorem FlowFrames.finish (h : FlowFrames E flow) : FlowFrames E flow.finish := by
  cases flow with
  | running m | ended status m => exact h
  | undefined => trivial

theorem flowFrames_of_thrown (h : Thrown E m flow) (hok : FramesOk E m) : FlowFrames E flow := by
  cases h with
  | @caught inner rest g hd exc m' hframes hframes' _ _ hkeeps _ =>
    refine ⟨hkeeps.registered hok.registered, ?_⟩
    intro f hf
    rw [hframes'] at hf
    rcases mem_cons.mp hf with rfl | hf
    · simp [enterHandler]
    · apply hok.regs f
      rw [hframes]
      exact mem_append_right _ (mem_cons_of_mem _ hf)
  | ended hkeeps => exact hkeeps.registered hok.registered

theorem resumeCaller_regs (p : Program) (callee : Method) (isVoid : Bool) (v : Value)
    (caller : Frame) :
    (resumeCaller p callee isVoid v caller).regs.length = caller.regs.length := by
  unfold resumeCaller
  dsimp only
  split <;> split <;> (try split) <;> simp [Frame.setReg, Frame.next]

theorem thrown_raise (m : Machine) (cls msg : String) : Thrown E m (raise E m cls msg) :=
  thrown_throw ((Near.refl m).withRt (keeps_primitives.makeException m.rt cls msg)) _

theorem flowFrames_raise (hok : FramesOk E m) (cls msg : String) :
    FlowFrames E (raise E m cls msg) :=
  flowFrames_of_thrown (thrown_raise m cls msg) hok

/-- Starting an initializer overflows the stack or pushes one frame. -/
theorem pushClinit_cases (E : Env) (m : Machine) (f : Frame) (cls : Nat) : pushClinit E m f cls =
        raise E { m with rt := m.rt.markInitialized cls } kClsStackOverflow "" ∨
      ∃ m' nf, pushClinit E m f cls = .running m' ∧ m'.frames = nf :: m.frames ∧
        nf.regs.length = (method E.program nf.method).numRegs ∧
        (m.rt.markInitialized cls).Keeps m'.rt := by
  unfold pushClinit
  dsimp only
  split
  · exact Or.inl rfl
  let nf : Frame :=
    { method := (m.rt.markInitialized cls).findClinit E.program cls
      callerPc := f.pc
      regs := replicate (method E.program
        ((m.rt.markInitialized cls).findClinit E.program cls)).numRegs .bottom }
  have hcount := (Near.refl { m with
    rt := m.rt.markInitialized cls, frames := nf :: m.frames }).count E.cfg
      fun s => { s with calls := s.calls + 1 }
  have hbump := hcount.withRt (keeps_primitives.bumpInvocations _
    ((m.rt.markInitialized cls).findClinit E.program cls))
  exact Or.inr ⟨_, nf, rfl, hbump.frames, length_replicate, hbump.keeps⟩

theorem flowFrames_pushClinit {f : Frame} {cls : Nat} (hok : FramesOk E m)
    (hneeds : m.rt.needsInit E.program cls = true) : FlowFrames E (pushClinit E m f cls) := by
  obtain ⟨⟨ci, hci, hname⟩, -⟩ := (needsInit_iff hok.registered).mp hneeds
  obtain ⟨hreg, -, -⟩ := markInitialized_spec hok.registered hci hname
  rcases pushClinit_cases E m f cls with hraise | ⟨m', nf, hpush, hframes, hregs, hkeeps⟩
  · have hmarked : FramesOk E { m with rt := m.rt.markInitialized cls } := ⟨hreg, hok.regs⟩
    rw [hraise]
    exact flowFrames_raise hmarked kClsStackOverflow ""
  rw [hpush]
  refine ⟨hkeeps.registered hreg, ?_⟩
  intro x hx
  rw [hframes] at hx
  rcases mem_cons.mp hx with rfl | hx
  · exact le_of_eq hregs.symm
  · exact hok.regs x hx

theorem flowFrames_of_stepped (h : Stepped E m flow) (hok : FramesOk E m) : FlowFrames E flow := by
  cases h with
  | @stay f f' rest m' hframes hframes' hmethod hkeeps _ hregs =>
    refine ⟨hkeeps.registered hok.registered, ?_⟩
    intro x hx
    rw [hframes'] at hx
    rcases mem_cons.mp hx with rfl | hx
    · rw [hmethod, hregs]
      exact hok.regs f (by rw [hframes]; exact mem_cons_self)
    · exact hok.regs x (by rw [hframes]; exact mem_cons_of_mem _ hx)
  | @init f rest m₁ cls hframes hnear _ hneeds =>
    apply flowFrames_pushClinit ⟨hnear.keeps.registered hok.registered, ?_⟩ hneeds
    rw [hnear.frames]
    exact hok.regs
  | @call g m' hframes _ hkeeps _ hregs =>
    refine ⟨hkeeps.registered hok.registered, ?_⟩
    intro x hx
    rw [hframes] at hx
    rcases mem_cons.mp hx with rfl | hx
    · exact le_of_eq hregs.symm
    · exact hok.regs x hx
  | caught hframes hframes' hmem hcovers hkeeps hclass =>
    exact flowFrames_of_thrown (.caught hframes hframes' hmem hcovers hkeeps hclass) hok
  | @ret f caller rest isVoid v m' hframes hframes' hkeeps _ =>
    refine ⟨hkeeps.registered hok.registered, ?_⟩
    intro x hx
    rw [hframes'] at hx
    rcases mem_cons.mp hx with rfl | hx
    · rw [resumeCaller_method, resumeCaller_regs]
      apply hok.regs caller
      rw [hframes]
      exact mem_cons_of_mem _ mem_cons_self
    · apply hok.regs x
      rw [hframes]
      exact mem_cons_of_mem _ (mem_cons_of_mem _ hx)
  | ended hkeeps => exact hkeeps.registered hok.registered
  | undefined => trivial

/-! ## The start of a call -/

theorem flowFrames_refuse (hreg : m.rt.Registered) (cls msg : String) :
    FlowFrames E (refuse E m cls msg) := by
  have hexc := (keeps_primitives.makeException m.rt cls msg).registered hreg
  unfold refuse Machine.count
  dsimp only
  split <;> exact hexc

theorem flowFrames_enterLoop {f : Frame} (hreg : m.rt.Registered) (hframes : m.frames = [f])
    (hregs : (method E.program f.method).numRegs ≤ f.regs.length) :
    FlowFrames E (enterLoop E m) := by
  obtain ⟨hframes₁, -, hgood⟩ : _ ∧ _ ∧ Good E (internProgram E m) := internProgram_spec hreg
  unfold enterLoop
  generalize internProgram E m = m₁ at hframes₁ hgood
  rw [hframes] at hframes₁
  dsimp only
  rw [hframes₁]
  dsimp only
  split
  · have hok : FramesOk E (m₁.setTop { f with pendingException := 0 }) := by
      refine ⟨hgood.registered, ?_⟩
      intro x hx
      have hx' : x ∈ ({ f with pendingException := 0 } : Frame) :: m₁.frames.tail := hx
      rw [hframes₁, tail_cons, mem_singleton] at hx'
      rw [hx']
      exact hregs
    exact flowFrames_of_thrown (thrown_throw (.refl _) _) hok
  · refine ⟨hgood.registered, ?_⟩
    intro x hx
    rw [hframes₁, mem_singleton] at hx
    rw [hx]
    exact hregs

theorem length_growTo (l : List Value) (n : Nat) : n ≤ (growTo l n).length := by
  unfold growTo
  simp
  omega

theorem flowFrames_start (c : Call) {I : Interpreter} (hreg : I.rt.Registered) :
    FlowFrames E (c.start E I) := by
  obtain ⟨flow, hstart, hcases⟩ := started_start (E := E) (I := I) c
  rw [hstart]
  apply FlowFrames.finish
  have hentry : ∀ id, (method E.program id).numRegs ≤
      (replicate (method E.program id).numRegs Value.bottom).length := fun id =>
    le_of_eq length_replicate.symm
  cases hcases with
  | rejected => exact hreg
  | refused => exact flowFrames_refuse (m := I.machine) hreg _ _
  | @unlocked _ _ _ args id rt hlock =>
    have hlocked := (keeps_entryLock (E := E) (method E.program id) args I.rt).registered hreg
    rw [hlock] at hlocked
    exact flowFrames_refuse (m := { I.machine with rt }) hlocked _ _
  | @run _ _ args id _ _ _ =>
    exact flowFrames_enterLoop
      ((keeps_primitives.bumpInvocations I.rt id).registered hreg) rfl (hentry id)
  | @runLocked _ _ args id lock rt _ _ hlock =>
    have hlocked := (keeps_entryLock (E := E) (method E.program id) args I.rt).registered hreg
    rw [hlock] at hlocked
    exact flowFrames_enterLoop
      ((keeps_primitives.bumpInvocations rt id).registered hlocked) rfl (hentry id)
  | @resume frame _ _ => exact flowFrames_enterLoop hreg rfl (length_growTo _ _)

end Frames

section Sessions

variable {E : Env} {first : Call} {calls : List Call}

theorem FlowFrames.next {s : Session} (h : FlowFrames E s.flow) : FlowFrames E (s.next E).flow := by
  obtain ⟨rem, flow⟩ := s
  unfold Session.next
  cases flow with
  | running m => exact (flowFrames_of_stepped (stepped_step h.registered) h).finish
  | ended status m =>
    cases rem with
    | nil => exact h
    | cons call rem => exact flowFrames_start call h
  | undefined => exact h

theorem flowFrames_flowAt (n : Nat) : FlowFrames E (flowAt E first calls n) := by
  induction n with
  | zero => exact flowFrames_start first (init_spec E.program E.program.className).1
  | succ n ih => exact ih.next

theorem gate_of_start {c : Call} {I : Interpreter} {m : Machine}
    (h : c.start E I = .running m) : gateDiags E.program = none := by
  cases hgate : gateDiags E.program with
  | none => rfl
  | some diags =>
    cases c with
    | run name descriptor args =>
      simp only [Call.start, startRun, hgate, Flow.finish] at h
      cases h
    | resume frame =>
      simp only [Call.start, startResume, hgate, Flow.finish] at h
      cases h

/-- Nothing runs unless every method was accepted. -/
theorem gate_of_running {n : Nat} {m : Machine} (h : flowAt E first calls n = .running m) :
    gateDiags E.program = none := by
  induction n generalizing m with
  | zero => exact gate_of_start h
  | succ n ih =>
    have hnext : ((session E first calls n).next E).flow = .running m := h
    unfold Session.next at hnext
    cases hflow : (session E first calls n).flow with
    | running m' => exact ih hflow
    | ended status m' =>
      rw [hflow] at hnext
      dsimp only at hnext
      split at hnext
      · rw [hflow] at hnext
        cases hnext
      · exact gate_of_start hnext
    | undefined =>
      rw [hflow] at hnext
      dsimp only at hnext
      rw [hflow] at hnext
      cases hnext

variable {f : Frame} {ins : Ins} (hgate : gateDiags E.program = none)
  (hins : fetch E f = some ins)
include hgate hins

/-- The method of a frame with an instruction is in the table and was accepted. -/
theorem verified_of_fetch : (verify (method E.program f.method)).ok = true := by
  unfold fetch method at hins
  unfold method
  rw [getD_eq_getElem?_getD] at hins ⊢
  cases hget : E.program.methods[f.method]? with
  | none =>
    rw [hget] at hins
    cases hins
  | some meth =>
    have hnone : E.program.methods.find? (fun m => !(verify m).ok) = none :=
      Option.map_eq_none_iff.mp hgate
    have hall := find?_eq_none.mp hnone meth (mem_of_getElem? hget)
    simpa using hall

/-- The instruction a frame is about to execute is well formed. -/
theorem wellFormed_of_fetch : WellFormed (method E.program f.method) ins := by
  have hok := verified_of_fetch hgate hins
  unfold fetch at hins
  have hpc := (List.getElem?_eq_some_iff.mp hins).1
  obtain ⟨hstruct, -⟩ := accepted hok (zero_lt_of_lt hpc)
  have hcode : codeAt (method E.program f.method) f.pc = ins := by
    have hat := codeAt_eq hpc
    rw [hins] at hat
    exact (Option.some.inj hat).symm
  have hwf := hstruct.wellFormed hpc
  rwa [hcode] at hwf

/-- The destination of an accepted call is a register. -/
theorem dst_lt_of_fetch (hcall : (info ins.op).sig = .call ∨ (info ins.op).sig = .callQuick) :
    ins.dstReg < (method E.program f.method).numRegs := by
  apply (wellFormed_of_fetch hgate hins).dst_lt
  rcases hcall with hsig | hsig
  · rw [hsig]
    rfl
  · rw [hsig]
    rfl

end Sessions

/-- An activation of method `t` lies directly on `base`. -/
def OnTop (t : Nat) (base frames : List Frame) : Prop :=
  ∃ above g, frames = above ++ g :: base ∧ g.method = t

section Activations

variable {E : Env} {m m' : Machine} {t : Nat} {base : List Frame}

/-- An exception that is caught above `base` leaves the activation there. -/
theorem onTop_of_thrown (h : Thrown E m (.running m')) (hTop : OnTop t base m.frames)
    (hdeep : base.length < m'.frames.length) : OnTop t base m'.frames := by
  obtain ⟨above, g, hframes₀, hg⟩ := hTop
  generalize hflow : Flow.running m' = flow at h
  cases h with
  | @caught inner rest x hd exc m₂ hframes hframes' hmem hcovers =>
    cases hflow
    rw [hframes] at hframes₀
    rcases append_eq_append_iff.mp hframes₀ with ⟨mid, -, hrest⟩ | ⟨mid, -, hrest⟩
    · cases mid with
      | nil =>
        cases hrest
        exact ⟨[], _, hframes', hg⟩
      | cons y mid =>
        cases hrest
        exact ⟨_ :: mid, g, hframes', hg⟩
    · cases mid with
      | nil =>
        cases hrest
        exact ⟨[], _, hframes', hg⟩
      | cons y mid =>
        -- the handler is in a frame of `base`
        cases hrest
        rw [hframes', append_eq, length_append, length_cons, length_cons] at hdeep
        omega
  | ended => cases hflow

theorem onTop_of_stepped (h : Stepped E m (.running m')) (hTop : OnTop t base m.frames)
    (hdeep : base.length < m'.frames.length) : OnTop t base m'.frames := by
  generalize hflow : Flow.running m' = flow at h
  cases h with
  | @stay f f' rest m₂ hframes hframes' hmethod =>
    cases hflow
    obtain ⟨above, g, hframes₀, hg⟩ := hTop
    rw [hframes] at hframes₀
    cases above with
    | nil =>
      cases hframes₀
      exact ⟨[], f', hframes', hmethod.trans hg⟩
    | cons a above =>
      cases hframes₀
      exact ⟨f' :: above, g, hframes', hg⟩
  | @init f rest m₁ cls hframes hnear =>
    rw [← hnear.frames] at hTop
    rcases pushClinit_cases E m₁ f cls with hraise | ⟨m₂, nf, hpush, hframes', -, -⟩
    · have hthrown := thrown_raise (E := E) { m₁ with rt := m₁.rt.markInitialized cls }
        kClsStackOverflow ""
      rw [← hraise, ← hflow] at hthrown
      exact onTop_of_thrown hthrown hTop hdeep
    · rw [hpush] at hflow
      injection hflow with hflow
      obtain ⟨above, g, hframes₀, hg⟩ := hTop
      exact ⟨nf :: above, g, by rw [hflow, hframes', hframes₀]; rfl, hg⟩
  | @call g' m₂ hframes =>
    cases hflow
    obtain ⟨above, g, hframes₀, hg⟩ := hTop
    exact ⟨g' :: above, g, by rw [hframes, hframes₀]; rfl, hg⟩
  | caught hframes hframes' hmem hcovers hkeeps hclass =>
    cases hflow
    exact onTop_of_thrown (.caught hframes hframes' hmem hcovers hkeeps hclass) hTop hdeep
  | @ret f caller rest isVoid v m₂ hframes hframes' =>
    cases hflow
    obtain ⟨above, g, hframes₀, hg⟩ := hTop
    rw [hframes] at hframes₀
    cases above with
    | nil =>
      cases hframes₀
      rw [hframes'] at hdeep
      simp at hdeep
    | cons a above =>
      cases above with
      | nil =>
        cases hframes₀
        refine ⟨[], _, hframes', ?_⟩
        rw [resumeCaller_method]
        exact hg
      | cons a' above =>
        cases hframes₀
        exact ⟨_ :: above, g, hframes', hg⟩
  | ended | undefined => cases hflow

end Activations

def returnsValue : Op → Bool
  | .ireturn | .lreturn | .freturn | .dreturn | .areturn => true
  | _ => false

/-- Whenever an invoke pushes an activation of a method with descriptor `d` and that
activation, having been on the stack all the time, returns a value, the destination of
the invoke holds the value and the caller is behind the invoke. -/
def Delivers (d : String) : Prop :=
  ∀ (E : Env) (first : Call) (calls : List Call) (n : Nat) (m m₁ : Machine) (f g₀ : Frame)
    (rest : List Frame) (ins : Ins),
    flowAt E first calls n = .running m → m.frames = f :: rest → fetch E f = some ins →
    ((info ins.op).sig = .call ∨ (info ins.op).sig = .callQuick) →
    flowAt E first calls (n + 1) = .running m₁ → m₁.frames = g₀ :: m.frames →
    (method E.program g₀.method).descriptor = d →
    ∀ (j : Nat) (m' : Machine) (g : Frame) (below : List Frame) (ret : Ins), n < j →
      (∀ k, n < k → k ≤ j → ∃ mk, flowAt E first calls k = .running mk ∧
        m.frames.length < mk.frames.length) →
      flowAt E first calls j = .running m' → m'.frames = g :: below →
      below.length = m.frames.length → fetch E g = some ret → returnsValue ret.op = true →
      ∃ m'' f', flowAt E first calls (j + 1) = .running m'' ∧ m''.frames = f' :: rest ∧
        f'.reg ins.dstReg = g.reg ret.aReg ∧ f'.pc = f.pc + 1

section Law

variable {E : Env} {first : Call} {calls : List Call}

/-- The activation stays on its caller's frames as long as the stack is that deep. -/
theorem onTop_flowAt {n j : Nat} {m m₁ : Machine} {g₀ : Frame}
    (hpush : flowAt E first calls (n + 1) = .running m₁) (hframes : m₁.frames = g₀ :: m.frames)
    (hj : n < j)
    (hdeep : ∀ k, n < k → k ≤ j → ∃ mk, flowAt E first calls k = .running mk ∧
      m.frames.length < mk.frames.length) :
    ∃ mj, flowAt E first calls j = .running mj ∧ OnTop g₀.method m.frames mj.frames := by
  induction j, hj using le_induction with
  | base => exact ⟨m₁, hpush, [], g₀, hframes, rfl⟩
  | succ j hj ih =>
    obtain ⟨mj, hrun, hTop⟩ := ih fun k hk hkj => hdeep k hk (le_succ_of_le hkj)
    obtain ⟨mk, hrun', hlen⟩ := hdeep (j + 1) (lt_succ_of_lt hj) (le_refl _)
    refine ⟨mk, hrun', ?_⟩
    have hok : FlowFrames E (.running mj) := hrun ▸ flowFrames_flowAt j
    rw [flowAt_succ hrun] at hrun'
    have hstep := stepped_step (E := E) hok.registered
    rw [running_of_finish hrun'] at hstep
    exact onTop_of_stepped hstep hTop hlen

theorem step_returnsValue {m : Machine} {g caller : Frame} {rest : List Frame} {ret : Ins}
    (hframes : m.frames = g :: caller :: rest) (hret : fetch E g = some ret)
    (hop : returnsValue ret.op = true) :
    ∃ m', step E m = .running m' ∧
      m'.frames = resumeCaller E.program (method E.program g.method) false
        (g.reg ret.aReg) caller :: rest := by
  have hvoid : ret.op ≠ .returnVoid := by
    intro hEq
    rw [hEq] at hop
    cases hop
  have hmem : ret.op ∈ [Op.returnVoid, .ireturn, .lreturn, .freturn, .dreturn, .areturn] := by
    unfold returnsValue at hop
    split at hop <;> simp_all
  simpa [hvoid] using step_return hframes hret hmem

theorem delivers_of_parseReturn {d : String} (hret : parseReturn d ≠ .bottom) (hd : d ≠ "()V") :
    Delivers d := by
  intro E first calls n m m₁ f g₀ rest ins hrun hframes hins hcall hpush hpushed hdesc j m' g
    below ret hj hdeep hrun' hframes' hbelow hfetch hop
  -- the activation that returns is the one the invoke pushed
  obtain ⟨mj, hmj, above, g', hstack, hmethod⟩ := onTop_flowAt hpush hpushed hj hdeep
  rw [hrun'] at hmj
  injection hmj with hmj
  subst hmj
  rw [hframes'] at hstack
  have habove : above = [] := by
    have hlen := congrArg length hstack
    simp only [length_cons, length_append, hbelow] at hlen
    exact length_eq_zero_iff.mp (by omega)
  subst habove
  rw [nil_append] at hstack
  injection hstack with hg hbase
  subst hg
  rw [hbase, hframes] at hframes'
  obtain ⟨m'', hstep, hafter⟩ := step_returnsValue hframes' hfetch hop
  have hnext : flowAt E first calls (j + 1) = .running m'' := by
    rw [flowAt_succ hrun', hstep]
    rfl
  refine ⟨m'', _, hnext, hafter, ?_⟩
  -- the register exists
  have hok : FlowFrames E (.running m) := hrun ▸ flowFrames_flowAt n
  have hregs := hok.regs f (by rw [hframes]; exact mem_cons_self)
  have hdst := dst_lt_of_fetch (gate_of_running hrun) hins hcall
  have hclinit : isClinit (method E.program g.method) = false := by
    rw [hmethod]
    unfold isClinit
    rw [hdesc, Bool.and_eq_false_iff]
    right
    exact beq_eq_false_iff_ne.mpr hd
  have hresume : resumeCaller E.program (method E.program g.method) false
      (g.reg ret.aReg) f = (f.setReg ins.dstReg (g.reg ret.aReg)).next := by
    have hcode : (method E.program f.method).code[f.pc]? = some ins := hins
    unfold resumeCaller
    rw [hclinit, hmethod, hdesc]
    simp only [hret, ne_eq, not_false_eq_true, and_self, if_true, hcode]
    rfl
  rw [hresume]
  constructor
  · have hlt : ins.dstReg < f.regs.length := lt_of_lt_of_le hdst hregs
    simp [Frame.reg, Frame.setReg, Frame.next, hlt]
  · rfl

end Law

/-! ## All consumers of a descriptor -/

/-- Everything that reads the descriptor `d` finds the parameter types `ts` and the result
`rs` of the verifier's scan: the parsers, the graph builder's entry parameters, call
arguments and call result, and the interpreter's return. -/
structure ConsumersAgree (d : String) (ts : List RType) (rs : RetScan) : Prop where
  params : parseParams d = some ts
  count : paramCount d = ts.length
  result : parseReturn d = rs.type
  entry : ∀ m : Method, m.descriptor = d → entryParamTypes m =
    ((if m.isStatic then [] else [IRType.ref]) ++ ts.map rtypeToIr).take m.numLocals
  callArgs : ∀ op b, callArgCount op d b = min (ts.length + if hasReceiver op then 1 else 0) b
  callResult : callResultType d = rtypeToIr rs.type
  delivers : rs.isVoid = false → Delivers d

/-- For a descriptor the verifier accepts, all consumers agree with its scan exactly when
no bare boolean, byte, char or short occurs in it and no class name contains a bracket
or a parenthesis. -/
theorem consumersAgree_iff (d : String) (ts : List RType) (ret : List Char) (rs : RetScan)
    (hScan : scanParamTypes d = some (ts, ret)) (hDesc : scanMethodDesc d = some rs) :
    ConsumersAgree d ts rs ↔ PlainDesc d := by
  rw [← parse_eq_scan_iff hScan hDesc]
  constructor
  · intro h
    exact ⟨h.params, h.result⟩
  rintro ⟨hParams, hResult⟩
  have hCount : paramCount d = ts.length := by
    rw [paramCount, hParams]
    rfl
  refine ⟨hParams, hCount, hResult, ?_, ?_, ?_, ?_⟩
  · intro m hm
    rw [entryParamTypes, hm, hParams]
    rfl
  · intro op b
    rw [callArgCount, hCount]
  · rw [callResultType, hResult]
  intro hVoid
  apply delivers_of_parseReturn
  · rw [hResult]
    rcases ret_of_scanMethodDesc hScan hDesc with ⟨-, rfl⟩ | ⟨t, hText, rfl⟩
    · cases hVoid
    · exact hText.ne_bottom
  · rintro rfl
    have hUnit : scanMethodDesc "()V" = some ⟨true, .bottom⟩ := by decide
    rw [hUnit] at hDesc
    injection hDesc with hDesc
    rw [← hDesc] at hVoid
    cases hVoid

/-- Arrays of booleans are plain. -/
theorem consumersAgree_arrays :
    PlainDesc "([I[Z)I" ∧ ConsumersAgree "([I[Z)I" [.ref, .ref] ⟨false, .int⟩ :=
  ⟨by decide +kernel, (consumersAgree_iff "([I[Z)I" [.ref, .ref] ['I'] ⟨false, .int⟩
    (by decide +kernel) (by decide +kernel)).mpr (by decide +kernel)⟩

/-- `static boolean f() { return true; }`. -/
def truth : Method where
  name := "f"
  descriptor := "()Z"
  flags := 0x0008
  numRegs := 1
  code := [⟨.iconst, 0, 0, 0, 1⟩, ⟨.ireturn, 0, 0, 0, 0⟩]

/-- `static int main() { return f(); }`. -/
def mainTruth : Method where
  name := "main"
  descriptor := "()I"
  flags := 0x0008
  numRegs := 1
  code := [⟨.invokestatic, 0, 0, 0, 0⟩, ⟨.ireturn, 0, 0, 0, 0⟩]
  cp := [{ kind := .methodRef, str := "Main", str2 := "f", str3 := "()Z" }]

def booleanCall : Env where
  program := { methods := [mainTruth, truth] }
  host := default

def frameRegs : Flow → List (List Value)
  | .running m => m.frames.map Frame.regs
  | _ => []

/-- A boolean result is accepted by the verifier, dropped by the parser and never reaches
the register of the invoke: `main` continues with an undefined register. -/
theorem not_consumersAgree_boolean :
    scanParamTypes "()Z" = some ([], ['Z']) ∧ scanMethodDesc "()Z" = some ⟨false, .int⟩ ∧
      ¬ ConsumersAgree "()Z" [] ⟨false, .int⟩ ∧
      (verify mainTruth).ok = true ∧ (verify truth).ok = true ∧
      frameRegs (flowAt booleanCall (.run "main" "()I" []) [] 2) = [[⟨.int, 1⟩], [⟨.bottom, 0⟩]] ∧
      frameRegs (flowAt booleanCall (.run "main" "()I" []) [] 3) = [[⟨.bottom, 0⟩]] := by
  refine ⟨by decide +kernel, by decide +kernel, ?_, by decide +kernel, by decide +kernel,
    by decide +kernel, by decide +kernel⟩
  intro h
  have hBottom : parseReturn "()Z" = .bottom := by decide +kernel
  cases hBottom.symm.trans h.result

end B2Compiler.Interp
