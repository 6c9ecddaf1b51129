import B2Compiler.Interp.FrameInvariants

/-!
# Invariants of the runtime alone

A property of the runtime that its services, the marking of a class and the monitor operations
keep holds in every state of every session.  The induction over the trips is made here, once.
-/

namespace B2Compiler.Interp

open Rbc Runtime Machine

namespace Runtime

/-- A property of the runtime that nothing the interpreter does can break. -/
structure Invariant (I : Runtime → Prop) : Prop where
  services : Primitives fun rt rt' => I rt → I rt'
  mark : ∀ {rt id}, I rt → I (rt.markInitialized id)
  monitor : ∀ {rt r o mon}, rt.heap.obj r = some o → mon = ⟨kOwnerThread, 1⟩ ∨
      (o.mon.owner = kOwnerThread ∧ mon = ⟨o.mon.owner, o.mon.count + 1⟩) ∨
      (o.mon.owner = kOwnerThread ∧ o.mon.count ≠ 0 ∧
        mon = ⟨if o.mon.count - 1 = 0 then 0 else o.mon.owner, o.mon.count - 1⟩) →
    I rt → I { rt with heap := rt.heap.setObj r { o with mon } }

end Runtime

def Flow.HasRuntime (I : Runtime → Prop) : Flow → Prop
  | .running m => I m.rt
  | .ended _ m => I m.rt
  | .undefined => True

section Trips

variable {E : Env} {I : Runtime → Prop} (H : Runtime.Invariant I) {m m₁ : Machine} {f : Frame}
  {rest : List Frame} {ins : Ins} {flow : Flow} {rt : Runtime}

theorem Flow.HasRuntime.finish (h : flow.HasRuntime I) : flow.finish.HasRuntime I := by
  cases flow with
  | running m | ended status m => exact h
  | undefined => trivial

theorem hasRuntime_of (h : FlowHolds (fun rt _ => I rt) I True flow) : flow.HasRuntime I := by
  cases flow <;> exact h

include H

theorem Runtime.Invariant.enter (h : I rt) (r : Nat) :
    I { rt with heap := (rt.heap.monitorenter r).2 } := by
  unfold Heap.monitorenter
  split
  · exact h
  rename_i o hobj
  split
  · exact H.monitor hobj (.inl rfl) h
  · split
    · rename_i howner
      exact H.monitor hobj (.inr (.inl ⟨howner, rfl⟩)) h
    · exact h

theorem Runtime.Invariant.exit (h : I rt) (r : Nat) :
    I { rt with heap := (rt.heap.monitorexit r).2 } := by
  unfold Heap.monitorexit
  split
  · exact h
  rename_i o hobj
  split
  · exact h
  · rename_i hown
    rw [not_or, not_not] at hown
    exact H.monitor hobj (.inr (.inr ⟨hown.1, hown.2, rfl⟩)) h

theorem Runtime.Invariant.release (monitors : List Nat) : ∀ rt : Runtime, I rt →
      I { rt with heap := monitors.foldl (fun h r => (h.monitorexit r).2) rt.heap } := by
  induction monitors with
  | nil => exact fun rt h => h
  | cons r rest ih =>
    intro rt h
    exact ih { rt with heap := (rt.heap.monitorexit r).2 } (H.exit h r)

theorem Runtime.Invariant.frames :
    FrameInvariant E (fun rt rt' => I rt → I rt') (fun rt _ => I rt) I where
  services := H.services
  inside _ hq h := hq h
  setTop _ _ _ _ _ h := h
  handler _ _ h := h
  pop h := H.release _ _ h
  last h := H.release _ _ h
  none h := h

theorem hasRuntime_exec (h : I m.rt) (hf : m.frames = f :: rest) :
    FlowHolds (fun rt _ => I rt) I True (exec E m f ins) := by
  refine H.frames.execs h hf ?_ ?_ ?_ ?_ fun _ _ => trivial
  · intro heap henter
    have hentered := H.enter h (f.reg ins.aReg).asObj
    rw [henter] at hentered
    exact hentered
  · intro heap _ hexit
    have hexited := H.exit h (f.reg ins.aReg).asObj
    rw [hexit] at hexited
    exact hexited
  · intro m₁ cls _ h₁ _ _
    exact H.frames.inits (H.mark h₁) fun _ => H.mark h₁
  · intro m₁ t _ h₁ _
    exact H.frames.calls h₁ fun _ _ _ => h₁

section

variable (h : I m.rt)
include h

theorem hasRuntime_step : (step E m).HasRuntime I :=
  hasRuntime_of <| H.frames.steps h (fun _ => trivial) fun g hf _ h₁ =>
    hasRuntime_exec H h₁ (((Near.refl m).count E.cfg g).frames.trans hf)

/-! ## Sessions -/

theorem hasRuntime_refuse (cls msg : String) : (refuse E m cls msg).HasRuntime I := by
  have hexc := H.services.makeException m.rt cls msg h
  unfold refuse count
  dsimp only
  split <;> exact hexc

theorem hasRuntime_enterLoop : (enterLoop E m).HasRuntime I :=
  hasRuntime_of (H.frames.entersLoop h)

end

theorem Runtime.Invariant.entryLock (h : I rt) (entry : Method) (args : List Value) :
    I (entryLock E entry args rt).2 := by
  refine entryLock_within H.services (fun obj rt h => ?_) entry args rt h
  have hentered := H.enter h obj
  unfold lockObject
  generalize rt.heap.monitorenter obj = result at hentered ⊢
  obtain ⟨failure, heap⟩ := result
  cases failure <;> exact hentered

theorem hasRuntime_start {J : Interpreter} (h : I J.rt) (c : Call) :
    (c.start E J).HasRuntime I := by
  obtain ⟨flow, hstart, hcases⟩ := started_start (E := E) (I := J) c
  rw [hstart]
  apply Flow.HasRuntime.finish
  cases hcases with
  | rejected => exact h
  | refused => exact hasRuntime_refuse H (m := J.machine) h _ _
  | @unlocked name descriptor cls args id rt hlock =>
    have hlocked := H.entryLock (E := E) h (method E.program id) args
    rw [hlock] at hlocked
    exact hasRuntime_refuse H (m := { J.machine with rt }) hlocked _ _
  | run _ _ _ => exact hasRuntime_enterLoop H (H.services.bumpInvocations J.rt _ h)
  | @runLocked name descriptor args id lock rt _ _ hlock =>
    have hlocked := H.entryLock (E := E) h (method E.program id) args
    rw [hlock] at hlocked
    exact hasRuntime_enterLoop H (H.services.bumpInvocations rt id hlocked)
  | resume _ _ => exact hasRuntime_enterLoop H h

theorem hasRuntime_next {s : Session} (h : s.flow.HasRuntime I) : (s.next E).flow.HasRuntime I := by
  obtain ⟨rem, flow⟩ := s
  unfold Session.next
  cases flow with
  | running m => exact (hasRuntime_step H h).finish
  | ended status m =>
    cases rem with
    | nil => exact h
    | cons call rem => exact hasRuntime_start H (J := .ofMachine m) h call
  | undefined => exact h

/-- The property holds of every state of a session. -/
theorem hasRuntime_flowAt (hinit : I (init E.program)) (first : Call)
    (calls : List Call) (n : Nat) : (flowAt E first calls n).HasRuntime I := by
  induction n with
  | zero => exact hasRuntime_start H (J := .new E.program) hinit first
  | succ n ih => exact hasRuntime_next H ih

end Trips

end B2Compiler.Interp
