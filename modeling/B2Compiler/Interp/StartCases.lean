import B2Compiler.Interp.Dispatch

/-!
# Sessions and how their calls start

An interpreter serves any sequence of `run` and `resume` calls.  A call ends at once, because a
method was rejected, the call makes no sense or its lock is refused, or it enters the loop with
one frame.  Every invariant over whole sessions takes its start from these cases.
-/

namespace B2Compiler.Interp

open Rbc Runtime

/-! ## Sessions -/

inductive Call where
  | run (name descriptor : String) (args : List Value)
  | resume (frame : Frame)
  deriving DecidableEq, Repr

/-- Serve a call. -/
def Call.start (E : Env) (I : Interpreter) : Call → Flow
  | .run name descriptor args => startRun E I name descriptor args
  | .resume frame => startResume E I frame

/-- Calls still to be served, and the flow of the one being served. -/
structure Session where
  calls : List Call
  flow : Flow
  deriving DecidableEq, Repr

/-- One trip around the loop, or the start of the next call. -/
def Session.next (E : Env) (s : Session) : Session :=
  match s.flow with
  | .running m => { s with flow := (step E m).finish }
  | .ended _ m =>
    match s.calls with
    | [] => s
    | c :: cs => ⟨cs, c.start E (.ofMachine m)⟩
  | .undefined => s

/-- The session of a fresh interpreter after `n` trips. -/
def session (E : Env) (first : Call) (calls : List Call) : Nat → Session
  | 0 => ⟨calls, first.start E (.new E.program)⟩
  | n + 1 => (session E first calls n).next E

/-- The flow of a session after `n` trips. -/
def flowAt (E : Env) (first : Call) (calls : List Call) (n : Nat) : Flow :=
  (session E first calls n).flow

section

variable {E : Env} {first : Call} {calls : List Call}

theorem flowAt_succ {n : Nat} {m : Machine} (h : flowAt E first calls n = .running m) :
    flowAt E first calls (n + 1) = (step E m).finish := by
  show ((session E first calls n).next E).flow = _
  unfold Session.next
  rw [show (session E first calls n).flow = .running m from h]

theorem running_of_finish {flow : Flow} {m : Machine} (h : flow.finish = .running m) :
    flow = .running m := by
  cases flow with
  | running m' => exact h
  | ended status m' | undefined => cases h

end

def entryFrame (p : Program) (id : Nat) (args : List Value) (monitors : List Nat) : Frame :=
  { method := id
    locals := growTo args (method p id).numLocals
    regs := List.replicate (method p id).numRegs .bottom
    monitors }

/-- A frame as `resume` pads it. -/
def paddedFrame (p : Program) (frame : Frame) : Frame :=
  { frame with
    locals := growTo frame.locals (method p frame.method).numLocals
    regs := growTo frame.regs (method p frame.method).numRegs }

/-- The outcomes of serving a call. -/
inductive Started (E : Env) (I : Interpreter) : Call → Flow → Prop where
  /-- Some method was rejected. -/
  | rejected {c : Call} {diags : List VerifyDiag} :
      Started E I c (.ended .verifyFailed { I.machine with verifyDiags := diags })
  /-- The call does not fit the program. -/
  | refused {c : Call} {cls msg : String} : Started E I c (refuse E I.machine cls msg)
  /-- The lock of a synchronized entry method could not be taken. -/
  | unlocked {name descriptor cls : String} {args : List Value} {id : Nat} {rt : Runtime}
      (hlock : entryLock E (method E.program id) args I.rt = (.error cls, rt)) :
      Started E I (.run name descriptor args) (refuse E { I.machine with rt } cls "")
  | run {name descriptor : String} {args : List Value} {id : Nat}
      (hgate : gateDiags E.program = none) (hid : E.program.find name descriptor = some id)
      (hsync : (method E.program id).isSynchronized = false) :
      Started E I (.run name descriptor args) (enterLoop E { I.machine with
        rt := I.rt.bumpInvocations id, frames := [entryFrame E.program id args []] })
  | runLocked {name descriptor : String} {args : List Value} {id lock : Nat} {rt : Runtime}
      (hgate : gateDiags E.program = none) (hid : E.program.find name descriptor = some id)
      (hlock : entryLock E (method E.program id) args I.rt = (.ok lock, rt)) :
      Started E I (.run name descriptor args) (enterLoop E { I.machine with
        rt := rt.bumpInvocations id, frames := [entryFrame E.program id args [lock]] })
  | resume {frame : Frame} (hgate : gateDiags E.program = none)
      (hpc : frame.pc < (method E.program frame.method).code.length) :
      Started E I (.resume frame)
        (enterLoop E { I.machine with frames := [paddedFrame E.program frame] })

section Starts

variable {E : Env} {I : Interpreter}

theorem started_run (name descriptor : String) (args : List Value) :
    ∃ flow, startRun E I name descriptor args = flow.finish ∧
      Started E I (.run name descriptor args) flow := by
  unfold startRun
  dsimp only
  refine ⟨_, rfl, ?_⟩
  split
  · exact .rejected
  rename_i hgate
  split
  · exact .refused
  rename_i id hid
  by_cases hargs : args.length < paramCount descriptor +
      (if (method E.program id).isStatic then 0 else 1)
  · rw [if_pos hargs]
    exact .refused
  · rw [if_neg hargs]
    by_cases hsync : (method E.program id).isSynchronized = true
    · rw [if_pos hsync]
      split
      · rename_i hlock
        exact .unlocked hlock
      · rename_i hlock
        exact .runLocked hgate hid hlock
    · rw [if_neg hsync]
      exact .run hgate hid (Bool.not_eq_true _ ▸ hsync)

theorem started_resume (frame : Frame) :
    ∃ flow, startResume E I frame = flow.finish ∧ Started E I (.resume frame) flow := by
  unfold startResume
  dsimp only
  refine ⟨_, rfl, ?_⟩
  split
  · exact .rejected
  rename_i hgate
  split
  · exact .refused
  rename_i meth hmeth
  have hmethod : method E.program frame.method = meth := by
    rw [method, List.getD_eq_getElem?_getD, hmeth]
    rfl
  split
  · exact .refused
  rename_i hpc
  have hbegin : Started E I (.resume frame)
      (enterLoop E { I.machine with frames := [paddedFrame E.program frame] }) :=
    .resume hgate (by rw [hmethod]; omega)
  rw [paddedFrame, hmethod] at hbegin
  exact hbegin

theorem started_start (c : Call) : ∃ flow, c.start E I = flow.finish ∧ Started E I c flow := by
  cases c with
  | run name descriptor args => exact started_run name descriptor args
  | resume frame => exact started_resume frame

end Starts

end B2Compiler.Interp
