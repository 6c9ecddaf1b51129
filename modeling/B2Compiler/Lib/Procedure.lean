import Mathlib.Logic.Function.Basic

/-!
# Procedures over atomic operations

A procedure performs atomic operations on a state, hands control to code that is not its
own, and ends with a value or an exception.  Its execution runs up to the first point
where control leaves it; what happens there is the business of whoever runs it.
-/

namespace B2Compiler.Lib

universe u

/-- A procedure over the operations `Op`, each indexed by the type of its answer. -/
inductive Procedure (Op : Type → Type u) (Call Reply Err : Type) (α : Type) :
    Type (max 1 u) where
  | ret (a : α)
  | throw (e : Err)
  /-- Behaviour that is not defined. -/
  | stuck
  | op {β : Type} (o : Op β) (next : β → Procedure Op Call Reply Err α)
  | call (c : Call) (next : Reply → Procedure Op Call Reply Err α)

/-- Where an execution stands when control leaves the procedure. -/
inductive Stop (Op : Type → Type u) (Call Reply Err : Type) (α : Type) :
    Type (max 1 u) where
  | ret (a : α)
  | throw (e : Err)
  | stuck
  | call (c : Call) (next : Reply → Procedure Op Call Reply Err α)

namespace Procedure

variable {Op : Type → Type u} {Call Reply Err α β γ σ : Type}

/-! ## Sequencing -/

def bind : Procedure Op Call Reply Err α → (α → Procedure Op Call Reply Err β) →
    Procedure Op Call Reply Err β
  | .ret a, f => f a
  | .throw e, _ => .throw e
  | .stuck, _ => .stuck
  | .op o next, f => .op o fun b => (next b).bind f
  | .call c next, f => .call c fun r => (next r).bind f

instance : Monad (Procedure Op Call Reply Err) where
  pure := .ret
  bind := bind

theorem bind_eq (p : Procedure Op Call Reply Err α) (f : α → Procedure Op Call Reply Err β) :
    p >>= f = p.bind f := rfl

theorem map_eq (f : α → β) (p : Procedure Op Call Reply Err α) :
    f <$> p = p.bind fun a => .ret (f a) := rfl

theorem pure_eq (a : α) : (pure a : Procedure Op Call Reply Err α) = .ret a := rfl

/-- Perform one operation. -/
def perform {β : Type} (o : Op β) : Procedure Op Call Reply Err β := .op o .ret

/-- Procedures that agree once their results are mapped one to one agree. -/
theorem bind_ret_injective {f : α → β} (hf : Function.Injective f)
    {p q : Procedure Op Call Reply Err α}
    (h : p.bind (fun a => .ret (f a)) = q.bind fun a => .ret (f a)) : p = q := by
  induction p generalizing q with
  | ret a => cases q <;> simp_all [bind]; exact hf h
  | throw e | stuck => cases q <;> simp_all [bind]
  | op o next ih =>
    cases q with
    | op o' next' =>
      simp only [bind, op.injEq] at h
      obtain ⟨rfl, ho, hnext⟩ := h
      rw [eq_of_heq ho]
      exact congrArg (op o') (funext fun b => ih b (congrFun (eq_of_heq hnext) b))
    | _ => cases h
  | call c next ih =>
    cases q with
    | call c' next' =>
      simp only [bind, call.injEq] at h
      obtain ⟨rfl, hnext⟩ := h
      exact congrArg (call c) (funext fun r => ih r (congrFun hnext r))
    | _ => cases h

/-! ## Execution -/

section Exec

variable (run : ∀ {β : Type}, Op β → σ → β × σ)

/-- Perform operations until control leaves the procedure. -/
def exec : Procedure Op Call Reply Err α → σ → Stop Op Call Reply Err α × σ
  | .ret a, s => (.ret a, s)
  | .throw e, s => (.throw e, s)
  | .stuck, s => (.stuck, s)
  | .op o next, s => exec (next (run o s).1) (run o s).2
  | .call c next, s => (.call c next, s)

/-- What the rest of a procedure does after the first part has stopped. -/
def continueWith (f : α → Procedure Op Call Reply Err β) :
    Stop Op Call Reply Err α × σ → Stop Op Call Reply Err β × σ
  | (.ret a, s) => exec run (f a) s
  | (.throw e, s) => (.throw e, s)
  | (.stuck, s) => (.stuck, s)
  | (.call c next, s) => (.call c fun r => (next r).bind f, s)

theorem exec_bind (p : Procedure Op Call Reply Err α) (f : α → Procedure Op Call Reply Err β)
    (s : σ) : exec run (p.bind f) s = continueWith run f (exec run p s) := by
  induction p generalizing s with
  | ret a | throw e | stuck => rfl
  | op o next ih => exact ih _ _
  | call c next ih => rfl

@[simp] theorem exec_ret (a : α) (s : σ) :
    exec run (.ret a : Procedure Op Call Reply Err α) s = (.ret a, s) := rfl

@[simp] theorem exec_pure (a : α) (s : σ) :
    exec run (pure a : Procedure Op Call Reply Err α) s = (.ret a, s) := rfl

@[simp] theorem exec_throw (e : Err) (s : σ) :
    exec run (.throw e : Procedure Op Call Reply Err α) s = (.throw e, s) := rfl

@[simp] theorem exec_stuck (s : σ) :
    exec run (.stuck : Procedure Op Call Reply Err α) s = (.stuck, s) := rfl

@[simp] theorem exec_perform {β : Type} (o : Op β) (s : σ) :
    exec run (perform o : Procedure Op Call Reply Err β) s = (.ret (run o s).1, (run o s).2) := rfl

@[simp] theorem exec_monad_bind (p : Procedure Op Call Reply Err α)
    (f : α → Procedure Op Call Reply Err β) (s : σ) :
    exec run (p >>= f) s = continueWith run f (exec run p s) := exec_bind run p f s

@[simp] theorem exec_map (f : α → β) (p : Procedure Op Call Reply Err α) (s : σ) :
    exec run (f <$> p) s = continueWith run (fun a => .ret (f a)) (exec run p s) :=
  exec_bind run p _ s

/-- A mapped procedure returns what the procedure returned, mapped. -/
theorem exec_map_ret_iff (f : α → β) (p : Procedure Op Call Reply Err α) (b : β) (s t : σ) :
    exec run (f <$> p) s = (.ret b, t) ↔ ∃ a, exec run p s = (.ret a, t) ∧ f a = b := by
  rw [map_eq, exec_bind]
  obtain ⟨stop, u⟩ := exec run p s
  cases stop <;> simp [continueWith, exec]
  grind

theorem exec_map_of_ret (f : α → β) {p : Procedure Op Call Reply Err α} {a : α} {s t : σ}
    (h : exec run p s = (.ret a, t)) : exec run (f <$> p) s = (.ret (f a), t) :=
  (exec_map_ret_iff run f p (f a) s t).mpr ⟨a, h, rfl⟩

/-- Executions agree exactly when they agree with their results mapped one to one. -/
theorem exec_map_inj {f : α → β} (hf : Function.Injective f)
    {p q : Procedure Op Call Reply Err α} (s : σ) :
    exec run (f <$> p) s = exec run (f <$> q) s ↔ exec run p s = exec run q s := by
  rw [map_eq, map_eq, exec_bind, exec_bind]
  obtain ⟨stop, t⟩ := exec run p s
  obtain ⟨stop', t'⟩ := exec run q s
  constructor
  · intro h
    cases stop <;> cases stop' <;> simp only [continueWith, exec, Prod.mk.injEq, reduceCtorEq,
      false_and, Stop.ret.injEq, Stop.throw.injEq, Stop.call.injEq] at h ⊢
    · exact ⟨hf h.1, h.2⟩
    · exact h
    · exact h
    · exact ⟨⟨h.1.1, funext fun r => bind_ret_injective hf (congrFun h.1.2 r)⟩, h.2⟩
  · intro h
    rw [h]

section

variable (f : α → Procedure Op Call Reply Err β)
include f

@[simp] theorem continueWith_ret (a : α) (s : σ) :
    continueWith run f (.ret a, s) = exec run (f a) s := rfl

@[simp] theorem continueWith_throw (e : Err) (s : σ) :
    continueWith run f (.throw e, s) = (.throw e, s) := rfl

@[simp] theorem continueWith_stuck (s : σ) : continueWith run f (.stuck, s) = (.stuck, s) := rfl

@[simp] theorem continueWith_call (c : Call)
    (next : Reply → Procedure Op Call Reply Err α) (s : σ) :
    continueWith run f (.call c next, s) = (.call c fun r => (next r).bind f, s) := rfl

end

/-- What every operation does to the state, an execution does. -/
theorem exec_relates {R : σ → σ → Prop} (hrefl : ∀ s, R s s)
    (htrans : ∀ s t u, R s t → R t u → R s u)
    (hop : ∀ {β : Type} (o : Op β) (s : σ), R s (run o s).2)
    (p : Procedure Op Call Reply Err α) (s : σ) : R s (exec run p s).2 := by
  induction p generalizing s with
  | ret a | throw e | stuck => exact hrefl s
  | op o next ih => exact htrans _ _ _ (hop o s) (ih _ _)
  | call c next ih => exact hrefl s

/-- Every operation performed before control leaves the procedure satisfies `P` at the
state it is performed in. -/
def Performs (P : ∀ {β : Type}, Op β → σ → Prop) : Procedure Op Call Reply Err α → σ → Prop
  | .op o next, s => P o s ∧ Performs P (next (run o s).1) (run o s).2
  | _, _ => True

/-- What each operation preserves, an execution preserves. -/
theorem exec_preserves {P : ∀ {β : Type}, Op β → σ → Prop} {Inv : σ → Prop}
    {R : σ → σ → Prop} (hrefl : ∀ s, R s s) (htrans : ∀ s t u, R s t → R t u → R s u)
    (hop : ∀ {β : Type} (o : Op β) (s : σ), Inv s → P o s → Inv (run o s).2 ∧ R s (run o s).2)
    (p : Procedure Op Call Reply Err α) (s : σ) (hs : Inv s)
    (hp : p.Performs run (fun o s => P o s) s) :
    Inv (p.exec run s).2 ∧ R s (p.exec run s).2 := by
  induction p generalizing s with
  | ret a | throw e | stuck => exact ⟨hs, hrefl s⟩
  | op o next ih =>
    obtain ⟨hinv, hstep⟩ := hop o s hs hp.1
    obtain ⟨hend, hrest⟩ := ih _ _ hinv hp.2
    exact ⟨hend, htrans _ _ _ hstep hrest⟩
  | call c next ih => exact ⟨hs, hrefl s⟩

end Exec

end Procedure

end B2Compiler.Lib
