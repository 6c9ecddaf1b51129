import B2Compiler.Interp.CallReturn

/-!
# Calls served one after another

The trips of one call of the interpreter's interface, and the interpreters an environment can
have: a new one, and whatever an earlier call left behind.
-/

namespace B2Compiler.Interp

open Rbc

/-- The flow of a call after `n` trips around the loop. -/
def callAt (E : Env) (I : Interpreter) (c : Call) : Nat → Flow
  | 0 => c.start E I
  | n + 1 =>
    match callAt E I c n with
    | .running m => (step E m).finish
    | flow => flow

/-- The interpreters of an environment: a new one, and what a call leaves behind. -/
inductive Served (E : Env) : Interpreter → Prop where
  | new : Served E (.new E.program)
  | call {I : Interpreter} {c : Call} {n : Nat} {status : RunStatus} {m : Machine}
      (hI : Served E I) (hend : callAt E I c n = .ended status m) : Served E (.ofMachine m)

variable {E : Env} {I : Interpreter}

/-- What the start has and the steps keep holds throughout. -/
theorem callAt_induct {P : Flow → Prop} {c : Call} (hstart : P (c.start E I))
    (hstep : ∀ n m, callAt E I c n = .running m → P (.running m) → P (step E m).finish)
    (n : Nat) : P (callAt E I c n) := by
  induction n with
  | zero => exact hstart
  | succ n ih =>
    rw [callAt]
    split
    · rename_i m hm
      exact hstep n m hm (hm ▸ ih)
    · exact ih

theorem flowFrames_callAt (hreg : I.rt.Registered) (c : Call) (n : Nat) :
    FlowFrames E (callAt E I c n) :=
  callAt_induct (flowFrames_start c hreg)
    (fun _ _ _ ih => (flowFrames_of_stepped (stepped_step ih.registered) ih).finish) n

theorem Served.registered (h : Served E I) : I.rt.Registered := by
  induction h with
  | new => exact (Runtime.init_spec E.program E.program.className).1
  | @call I c n status m _ hend ih =>
    have hflow := flowFrames_callAt (E := E) ih c n
    rw [hend] at hflow
    exact hflow

theorem running_zero {c : Call} {n : Nat} {m : Machine} (h : callAt E I c n = .running m) :
    ∃ m₀, callAt E I c 0 = .running m₀ := by
  induction n generalizing m with
  | zero => exact ⟨m, h⟩
  | succ n ih =>
    rw [callAt] at h
    split at h
    · rename_i m' hm'
      exact ih hm'
    · exact ih h

def Flow.isEnded : Flow → Bool
  | .ended _ _ => true
  | _ => false

theorem callAt_ended {c : Call} {n : Nat} (h : (callAt E I c n).isEnded = true) (k : Nat) :
    (callAt E I c (n + k)).isEnded = true := by
  induction k with
  | zero => exact h
  | succ k ih =>
    show (callAt E I c (n + k + 1)).isEnded = true
    rw [callAt]
    split
    · rename_i m hm
      rw [hm] at ih
      cases ih
    · exact ih

end B2Compiler.Interp
