import Mathlib.Data.List.Basic

/-!
# While loops with fuel

A loop that may run for ever is a function of an amount of fuel: each turn takes one
unit, and without fuel there is no answer.  More fuel never changes an answer
(`Steady`), so the answer a computation returns with some amount is its answer.  A loop
is reasoned about by an invariant, and by a measure that falls in every turn when it has
to come to an end.
-/

namespace B2Compiler.Lib.Fuel

open Option Nat

variable {σ α β : Type}

/-! ## Answers -/

/-- An answer stays the same with more fuel. -/
def Steady (f : Nat → Option α) : Prop :=
  ∀ n m a, n ≤ m → f n = some a → f m = some a

/-- Some amount of fuel leads to the answer. -/
def Returns (f : Nat → Option α) (a : α) : Prop := ∃ n, f n = some a

theorem Returns.unique {f : Nat → Option α} (hf : Steady f) {a b : α} (ha : Returns f a)
    (hb : Returns f b) : a = b := by
  obtain ⟨n, hn⟩ := ha
  obtain ⟨m, hm⟩ := hb
  have hn' := hf n (max n m) a (Nat.le_max_left n m) hn
  have hm' := hf m (max n m) b (Nat.le_max_right n m) hm
  exact Option.some.inj (hn'.symm.trans hm')

theorem steady_const (o : Option α) : Steady fun _ => o :=
  fun _ _ _ _ h => h

theorem steady_bind {f : Nat → Option α} {g : Nat → α → Option β} (hf : Steady f)
    (hg : ∀ a, Steady fun n => g n a) : Steady fun n => (f n).bind (g n) := by
  intro n m b hnm h
  obtain ⟨a, ha, hb⟩ := bind_eq_some_iff.mp h
  exact bind_eq_some_iff.mpr ⟨a, hf n m a hnm ha, hg a n m b hnm hb⟩

theorem steady_map {f : Nat → Option α} (hf : Steady f) (g : α → β) :
    Steady fun n => (f n).map g := by
  intro n m b hnm h
  obtain ⟨a, ha, hb⟩ := map_eq_some_iff.mp h
  exact map_eq_some_iff.mpr ⟨a, hf n m a hnm ha, hb⟩

theorem Returns.bind {f : Nat → Option α} {g : Nat → α → Option β} {a : α} {b : β}
    (hf : Steady f) (hg : Steady fun n => g n a) (ha : Returns f a)
    (hb : Returns (fun n => g n a) b) : Returns (fun n => (f n).bind (g n)) b := by
  obtain ⟨n, hn⟩ := ha
  obtain ⟨m, hm⟩ := hb
  refine ⟨max n m, Option.bind_eq_some_iff.mpr ⟨a, ?_, ?_⟩⟩
  · exact hf n _ a (Nat.le_max_left n m) hn
  · exact hg m _ b (Nat.le_max_right n m) hm

theorem Returns.map {f : Nat → Option α} {a : α} (ha : Returns f a) (g : α → β) :
    Returns (fun n => (f n).map g) (g a) := by
  obtain ⟨n, hn⟩ := ha
  exact ⟨n, congrArg (Option.map g) hn⟩

theorem steady_foldlM {f : Nat → σ → α → Option σ} (hf : ∀ s a, Steady fun n => f n s a)
    (l : List α) (s : σ) : Steady fun n => l.foldlM (f n) s := by
  induction l generalizing s with
  | nil => exact steady_const (some s)
  | cons a l ih =>
    simp only [List.foldlM_cons]
    exact steady_bind (hf s a) ih

/-- A pass keeps what each of its steps keeps: `Inv` speaks of the part already done. -/
theorem foldlM_inv {f : σ → α → Option σ} {l : List α} (Inv : List α → σ → Prop)
    (hStep : ∀ done a rest s s', l = done ++ a :: rest → Inv done s → f s a = some s' →
      Inv (done ++ [a]) s')
    {s s' : σ} (h : l.foldlM f s = some s') (hInit : Inv [] s) : Inv l s' := by
  suffices hGen : ∀ rest done s, l = done ++ rest → Inv done s → rest.foldlM f s = some s' →
      Inv l s' from hGen l [] s rfl hInit h
  intro rest
  induction rest with
  | nil =>
    intro done s hl hInv hs
    rw [List.append_nil] at hl
    rw [hl, ← Option.some.inj hs]
    exact hInv
  | cons a rest ih =>
    intro done s hl hInv hs
    rw [List.foldlM_cons] at hs
    obtain ⟨s₁, h₁, hs⟩ := bind_eq_some_iff.mp hs
    exact ih (done ++ [a]) s₁ (by rw [hl, List.append_assoc]; rfl)
      (hStep done a rest s s₁ hl hInv h₁) hs

theorem foldlM_returns {f : Nat → σ → α → Option σ} {l : List α} (Inv : List α → σ → Prop)
    (hSteady : ∀ s a, Steady fun n => f n s a)
    (hStep : ∀ done a rest s, l = done ++ a :: rest → Inv done s →
      ∃ s', Returns (fun n => f n s a) s' ∧ Inv (done ++ [a]) s')
    {s : σ} (hInit : Inv [] s) : ∃ s', Returns (fun n => l.foldlM (f n) s) s' ∧ Inv l s' := by
  suffices hGen : ∀ rest done s, l = done ++ rest → Inv done s →
      ∃ s', Returns (fun n => rest.foldlM (f n) s) s' ∧ Inv l s' from hGen l [] s rfl hInit
  intro rest
  induction rest with
  | nil =>
    intro done s hl hInv
    rw [List.append_nil] at hl
    exact ⟨s, ⟨0, rfl⟩, hl ▸ hInv⟩
  | cons a rest ih =>
    intro done s hl hInv
    obtain ⟨s₁, h₁, hInv₁⟩ := hStep done a rest s hl hInv
    obtain ⟨s', hs', hInv'⟩ :=
      ih (done ++ [a]) s₁ (by rw [hl, List.append_assoc]; rfl) hInv₁
    refine ⟨s', ?_, hInv'⟩
    simp only [List.foldlM_cons]
    exact Returns.bind (hSteady s a) (steady_foldlM hSteady rest s₁) h₁ hs'

/-- `while (cond) body`, with one unit of fuel for each turn. -/
def whileLoop (cond : σ → Bool) (body : Nat → σ → Option σ) : Nat → σ → Option σ
  | 0, _ => none
  | n + 1, s => if cond s then (body n s).bind (whileLoop cond body n) else some s

section Loop

variable {cond : σ → Bool} {body : Nat → σ → Option σ}

theorem whileLoop_steady (hBody : ∀ s, Steady fun n => body n s) (s : σ) :
    Steady fun n => whileLoop cond body n s := by
  intro n
  induction n generalizing s with
  | zero =>
    intro m a _ h
    cases h
  | succ n ih =>
    intro m a hnm h
    obtain ⟨m, rfl⟩ : ∃ k, m = k + 1 := ⟨m - 1, by omega⟩
    dsimp only [whileLoop] at h ⊢
    by_cases hc : cond s = true
    · rw [if_pos hc] at h ⊢
      obtain ⟨s₁, h₁, h⟩ := bind_eq_some_iff.mp h
      refine bind_eq_some_iff.mpr ⟨s₁, hBody s n m s₁ (by omega) h₁, ?_⟩
      exact ih s₁ m a (by omega) h
    · rw [if_neg hc] at h ⊢
      exact h

/-- What every turn keeps holds at the end, where the condition fails. -/
theorem whileLoop_inv (Inv : σ → Prop)
    (hStep : ∀ n s s', Inv s → cond s = true → body n s = some s' → Inv s') {n : Nat} {s r : σ}
    (h : whileLoop cond body n s = some r) (hInit : Inv s) : Inv r ∧ cond r = false := by
  induction n generalizing s with
  | zero => cases h
  | succ n ih =>
    rw [whileLoop] at h
    by_cases hc : cond s = true
    · rw [if_pos hc] at h
      obtain ⟨s₁, h₁, h⟩ := bind_eq_some_iff.mp h
      exact ih h (hStep n s s₁ hInit hc h₁)
    · rw [if_neg hc] at h
      cases h
      exact ⟨hInit, by simpa using hc⟩

/-- A loop whose turns all return and lower a measure comes to an end. -/
theorem whileLoop_returns (cond : σ → Bool) (body : Nat → σ → Option σ) (Inv : σ → Prop)
    (measure : σ → Nat) (hBody : ∀ s, Steady fun n => body n s)
    (hStep : ∀ s, Inv s → cond s = true →
      ∃ s', Returns (fun n => body n s) s' ∧ Inv s' ∧ measure s' < measure s)
    {s : σ} (hInit : Inv s) :
    ∃ r, Returns (fun n => whileLoop cond body n s) r ∧ Inv r ∧ cond r = false := by
  induction hm : measure s using Nat.strongRecOn generalizing s with
  | _ k ih =>
    by_cases hc : cond s = true
    · obtain ⟨s₁, ⟨n, hn⟩, hInv₁, hLt⟩ := hStep s hInit hc
      obtain ⟨r, ⟨m, hr⟩, hInv, hEnd⟩ := ih (measure s₁) (hm ▸ hLt) hInv₁ rfl
      refine ⟨r, ⟨max n m + 1, ?_⟩, hInv, hEnd⟩
      have hFirst := hBody s n (max n m) s₁ (Nat.le_max_left n m) hn
      have hRest := whileLoop_steady hBody s₁ m (max n m) r (Nat.le_max_right n m) hr
      dsimp only [whileLoop] at hFirst hRest ⊢
      rw [if_pos hc, hFirst]
      exact hRest
    · refine ⟨s, ⟨1, ?_⟩, hInit, by simpa using hc⟩
      dsimp only [whileLoop]
      rw [if_neg hc]

end Loop

end B2Compiler.Lib.Fuel
