import B2Compiler.Interp.Dispatch

/-!
# Runs through a piece of code

A piece of straight code or of branches works on the registers of one frame.  Such runs
compose, and every instruction is one of them.
-/

namespace B2Compiler.Interp

open Rbc Relation

variable {E : Env} {m : Method}

/-- From the first pc and registers to the second ones, in the innermost frame of any machine;
nothing else of the frames changes. -/
def Goes (E : Env) (m : Method) (s t : Nat × List Value) : Prop :=
  ∀ (M : Machine) (f : Frame) (rest : List Frame), M.frames = f :: rest →
    Runtime.method E.program f.method = m → f.pc = s.1 → f.regs = s.2 →
      ∃ M', ReflTransGen (fun A B => step E A = .running B) M M' ∧
        M'.frames = { f with pc := t.1, regs := t.2 } :: rest

theorem Goes.refl (s : Nat × List Value) : Goes E m s s := by
  intro M f rest hFrames _ hPc hRegs
  refine ⟨M, .refl, ?_⟩
  rw [hFrames, ← hPc, ← hRegs]

theorem Goes.trans {s t u : Nat × List Value} (h : Goes E m s t) (h' : Goes E m t u) :
    Goes E m s u := by
  intro M f rest hFrames hMethod hPc hRegs
  obtain ⟨M₁, hRun, hFrames₁⟩ := h M f rest hFrames hMethod hPc hRegs
  obtain ⟨M₂, hRun', hFrames₂⟩ := h' M₁ _ rest hFrames₁ hMethod rfl rfl
  exact ⟨M₂, hRun.trans hRun', hFrames₂⟩

/-! ## One instruction -/

theorem count_frames (M : Machine) (cfg : InterpConfig) (g : InterpStats → InterpStats) :
    (M.count cfg g).frames = M.frames := by
  unfold Machine.count
  split <;> rfl

variable {ins : Ins} {p : Nat} {regs : List Value}

/-- The machine in which the handler of an instruction runs. -/
theorem step_exec {M : Machine} {f : Frame} {rest : List Frame} (hFrames : M.frames = f :: rest)
    (hMethod : Runtime.method E.program f.method = m) (hCode : m.code[f.pc]? = some ins) :
    ∃ A : Machine, A.frames = f :: rest ∧ step E M = exec E A f ins := by
  refine ⟨M.count E.cfg fun s => { s with instructions := s.instructions + 1 }, ?_, ?_⟩
  · rw [count_frames, hFrames]
  · have hFetch : fetch E f = some ins := by
      rw [fetch, hMethod, hCode]
    simp only [step, hFrames, hFetch]

theorem goes_put {v : Value} (hCode : m.code[p]? = some ins)
    (hExec : ∀ A f, f.regs = regs → exec E A f ins = put A f ins v) :
    Goes E m (p, regs) (p + 1, regs.set ins.dstReg v) := by
  rintro M f rest hFrames hMethod rfl rfl
  obtain ⟨A, hA, hStep⟩ := step_exec hFrames hMethod hCode
  refine ⟨_, .single (hStep.trans (hExec A f rfl)), ?_⟩
  show _ :: A.frames.tail = _
  rw [hA]
  rfl

theorem goes_next (hCode : m.code[p]? = some ins)
    (hExec : ∀ A f, f.regs = regs → exec E A f ins = next A f) :
    Goes E m (p, regs) (p + 1, regs) := by
  rintro M f rest hFrames hMethod rfl rfl
  obtain ⟨A, hA, hStep⟩ := step_exec hFrames hMethod hCode
  refine ⟨_, .single (hStep.trans (hExec A f rfl)), ?_⟩
  show _ :: A.frames.tail = _
  rw [hA]
  rfl

/-- An instruction that jumps; a backward jump is counted, which no frame shows. -/
theorem goes_jump (hCode : m.code[p]? = some ins)
    (hExec : ∀ A f, f.regs = regs → exec E A f ins = jump A f ins.immIdx) :
    Goes E m (p, regs) (ins.immIdx, regs) := by
  rintro M f rest hFrames hMethod rfl rfl
  obtain ⟨A, hA, hStep⟩ := step_exec hFrames hMethod hCode
  refine ⟨_, .single (hStep.trans (hExec A f rfl)), ?_⟩
  unfold Machine.setTop
  split <;> exact congrArg (_ :: ·) (congrArg List.tail hA)

theorem goes_iconst (regs : List Value) (hCode : m.code[p]? = some ins) (hOp : ins.op = .iconst) :
    Goes E m (p, regs) (p + 1, regs.set ins.dstReg (.intVal ins.imm)) :=
  goes_put hCode fun A f _ => by rw [exec, hOp]

theorem goes_goto (regs : List Value) (hCode : m.code[p]? = some ins) (hOp : ins.op = .goto) :
    Goes E m (p, regs) (ins.immIdx, regs) :=
  goes_jump hCode fun A f _ => by rw [exec, hOp]

theorem exec_arith {A : Machine} {f : Frame} {v : Value}
    (h : arith E.host.ops ins f.reg = some (.value v)) : exec E A f ins = put A f ins v := by
  obtain ⟨op, dst, a, b, imm⟩ := ins
  cases op <;> first | (simp only [exec, h]; done) | cases h

theorem goes_truth {taken : Bool} (hCode : m.code[p]? = some ins)
    (hOp : ins.op = .ifeq ∨ ins.op = .ifne)
    (hTaken : branchTaken ins (fun r => regs.getD r .bottom) = some taken) :
    Goes E m (p, regs) (if taken then ins.immIdx else p + 1, regs) := by
  have hExec : ∀ A f, f.regs = regs →
      exec E A f ins = if taken then jump A f ins.immIdx else next A f := by
    rintro A f rfl
    have hReg : branchTaken ins f.reg = some taken := hTaken
    have hNone : arith E.host.ops ins f.reg = none := by
      rcases hOp with hOp | hOp <;> rw [arith, hOp]
    rcases hOp with hOp | hOp <;> rw [exec, hOp] <;> simp only [hNone, hReg] <;>
      cases taken <;> rfl
  cases taken with
  | true => exact goes_jump hCode hExec
  | false => exact goes_next hCode hExec

end B2Compiler.Interp
