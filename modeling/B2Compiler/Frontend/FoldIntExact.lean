import B2Compiler.Frontend.LowerRuns

/-!
# When a folded constant is the value of its code

The fold is right exactly when its 64 bits are never left, the least int is nowhere divided by
-1, and the value as it is written down is one of 32 bits.  Then it is what the emitted code
leaves, case labels take it as it is, and an assignment takes it when it is in range.
-/

namespace B2Compiler.Frontend

open Rbc Interp RbcBuilder BitVec Nat

variable {F : Forms} {e : Expr} {b b' b₁ : RbcBuilder}

/-! ## Narrowing -/

variable {w : BitVec 32} {n : Nat} {isBool : Bool} {x : Val} {t : JType}

theorem signExtend_setWidth {k : Nat} (hk : k ≤ 32) (hLow : -(2 ^ k : Nat) ≤ w.toInt * 2)
    (hHigh : w.toInt * 2 < (2 ^ k : Nat)) : (w.setWidth k).signExtend 32 = w := by
  apply eq_of_toInt_eq
  have hMod : (w.toNat : Int).bmod (2 ^ k) = w.toInt.bmod (2 ^ k) := by
    rw [toInt_eq_toNat_bmod]
    exact (Int.bmod_bmod_of_dvd (pow_dvd_pow 2 hk)).symm
  rw [toInt_signExtend_of_le hk, toInt_setWidth, hMod, Int.bmod_eq_of_le_mul_two hLow hHigh]

theorem zeroExtend_setWidth (hLow : 0 ≤ w.toInt) (hHigh : w.toInt < 65536) :
    (w.setWidth 16).setWidth 32 = w := by
  have hNat : (w.toNat : Int) = w.toInt := (toInt_eq_toNat_of_lt (by
    by_contra hLarge
    rw [toInt_eq_toNat_cond, if_neg hLarge] at hLow
    omega)).symm
  apply eq_of_toNat_eq
  rw [toNat_setWidth, toNat_setWidth, mod_eq_of_lt (show w.toNat < 2 ^ 16 by omega)]
  omega

/-- One conversion instruction that keeps the value. -/
theorem runs_conv {op : Op} (h : Leaves n w isBool b x b₁)
    (hOp : ∀ G (reg : Nat → Value) ins, ins.op = op → (reg ins.aReg).asInt = w →
      arith G ins reg = some (.value (.intVal w))) :
    Runs (n + 1) b (conv op x.reg b₁).2 (Has ⟨(conv op x.reg b₁).1, t⟩ w) := by
  have hPut : Leaves (n + 1) w false b ⟨b₁.numRegs.setWidth 16, .prim .int⟩ _ :=
    h.code.put ⟨op, b₁.numRegs.setWidth 16, x.reg, 0, 0⟩ rfl ofKind_int fun E A f hx => by
      refine exec_arith (hOp _ _ _ rfl ?_)
      show (f.reg x.reg.toNat).asInt = w
      rw [Frame.reg, hx, asInt_intVal]
  exact hPut.code

theorem OfKind.cases (h : OfKind t isBool) : t.kind = .bool ∨ t.kind = .int ∨ t.kind = .char := by
  cases isBool with
  | true => exact .inl h
  | false => exact .inr h

/-- A widening among the types of int registers is no instruction. -/
theorem emitConvert_widen {s : JType} (hKind : OfKind s isBool) (hFamily : t.isIntFamily = true)
    (hWidens : widensTo s t = true) (reg : BitVec 16) (b : RbcBuilder) :
    emitConvert reg s t b = (reg, b) := by
  have hSource := hKind.cases
  obtain ⟨tKind, tName⟩ := t
  obtain ⟨sKind, sName⟩ := s
  rcases hSource with rfl | rfl | rfl <;> cases tKind <;>
    first | rfl | (cases hWidens; done) | (cases hFamily; done)

theorem runs_narrow (h : Leaves n w isBool b x b₁)
    (hRange : constantInRange t.kind w.toInt = true) :
    ∃ k ≤ n + 1, Runs k b (emitConvert x.reg (.prim .int) t b₁).2
      (Has ⟨(emitConvert x.reg (.prim .int) t b₁).1, t⟩ w) := by
  obtain ⟨kind, name⟩ := t
  cases kind with
  | bool | int => exact ⟨n, le_succ n, h.code⟩
  | byte | short =>
    refine ⟨n + 1, le_refl _, runs_conv h fun G reg ins hOp hValue => ?_⟩
    have hBounds := of_decide_eq_true hRange
    rw [arith, hOp]
    dsimp only
    rw [hValue, signExtend_setWidth (by decide) (by omega) (by omega)]
  | char =>
    refine ⟨n + 1, le_refl _, runs_conv h fun G reg ins hOp hValue => ?_⟩
    have hBounds := of_decide_eq_true hRange
    rw [arith, hOp]
    dsimp only
    rw [hValue, zeroExtend_setWidth (by omega) (by omega)]
  | _ => cases hRange

theorem runs_assign {r : BitVec 16} (h : Leaves n w isBool b x b₁) (hFamily : t.isIntFamily = true)
    (hConvert : emitAssignConvert x.reg x.type t (some w.toInt) b₁ = .ok (r, b')) :
    ∃ k ≤ n + 1, Runs k b b' (Has ⟨r, t⟩ w) := by
  unfold emitAssignConvert at hConvert
  split_ifs at hConvert with hWidens
  · injection hConvert with hConvert
    rw [emitConvert_widen h.type hFamily hWidens] at hConvert
    cases hConvert
    exact ⟨n, le_succ n, h.code⟩
  · dsimp only at hConvert
    split_ifs at hConvert with hRange
    injection hConvert with hConvert
    have hRuns := runs_narrow h hRange
    rw [hConvert] at hRuns
    exact hRuns

theorem assign_accepted {s : JType} (hKind : OfKind s isBool) (hFamily : t.isIntFamily = true)
    {v : Int} (hRange : constantInRange t.kind v = true) (reg : BitVec 16) (b : RbcBuilder) :
    ∃ x, emitAssignConvert reg s t (some v) b = .ok x := by
  have hSource : s.isRefLike = false := by
    rw [JType.isRefLike]
    rcases hKind.cases with h | h | h <;> rw [h] <;> rfl
  have hTarget : t.isRefLike = false := by
    obtain ⟨kind, name⟩ := t
    cases kind <;> first | rfl | (cases hFamily; done)
  unfold emitAssignConvert
  simp only [hSource, hTarget, hRange, Bool.and_false, Bool.false_and, Bool.false_eq_true,
    if_false, if_true]
  split_ifs <;> exact ⟨_, rfl⟩

/-! ## The value that the code leaves -/

/-- Wherever in a method the code is emitted, it leaves the value in its result register and the
registers handed out before alone: for every method that is published with it, every machine
and all registers. -/
def LeftBy (lower : RbcBuilder → Lowered) (taken : Nat) (w : BitVec 32) : Prop :=
  ∀ (name descriptor : String) (flags : BitVec 16) (calls : List Call),
    (∀ call ∈ calls, ∀ out, call ≠ .finish out) →
      let b := (run name descriptor flags calls).1
      ∀ (v : Val) (b' : RbcBuilder), lower b = .ok (v, b') →
        -- registers are counted in 32 bits
        b.numRegs.toNat + taken < 2 ^ 32 →
          ∀ (E : Env) (m : Method) (regs : List Value), Published b' m →
            regs.length = m.numRegs → ∃ regs', Between E m b b' regs regs' ∧ Has v w regs'

/-- A run before the code keeps its patches inside. -/
theorem tidy_run {name descriptor : String} {flags : BitVec 16} {calls : List Call}
    (hCalls : ∀ call ∈ calls, ∀ out, call ≠ .finish out) :
    (run name descriptor flags calls).1.Tidy :=
  (grows_runFrom hCalls _ _).tidy fun p hp => absurd hp List.not_mem_nil

theorem LeftBy.of_runs {lower : RbcBuilder → Lowered} {taken : Nat}
    (h : ∀ b v b', lower b = .ok (v, b') → ∃ k ≤ taken, Runs k b b' (Has v w)) :
    LeftBy lower taken w := by
  intro name descriptor flags calls hCalls b v b' hLower hWide E m regs hPublished hLength
  obtain ⟨k, hk, hRuns⟩ := h b v b' hLower
  have hCount : b'.numRegs.toNat = b.numRegs.toNat + k := by
    rw [hRuns.emitted.registers, toNat_add, toNat_ofNat,
      mod_eq_of_lt (show k < 2 ^ 32 by omega), mod_eq_of_lt (by omega)]
  have hRegs := hPublished.registers
  have hMax := hPublished.numRegs_le
  exact hRuns.runs (tidy_run hCalls) hPublished (.refl b') (by omega) (by omega)

/-- The fold of an expression is defined; and a folded value is the value that the code of the
expression leaves, is taken as it is by a case label, and an assignment to a narrower type that
has the value takes it and leaves it as well. -/
structure FoldsRight (F : Forms) (e : Expr) : Prop where
  defined : foldInt e ≠ .undefined
  value : ∀ n isBool, foldInt e = .yes n isBool → ∃ w : BitVec 32, w.toInt = n ∧
    LeftBy (lowerExpr F e) (registers e) w ∧ (isBool = false → caseLabel e = .ok w) ∧
      ∀ (t : JType) (context : String), t.isIntFamily = true →
        LeftBy (lowerExprTo F e t context) (registers e + 1) w ∧
          (constantInRange t.kind w.toInt = true → ∀ b x, lowerExpr F e b = .ok x →
            ∃ y, lowerExprTo F e t context b = .ok y)

/-- A fold that is done, put in front of the conversion. -/
theorem lowerExprTo_eq {n : Int} (hFold : foldInt e = .yes n isBool)
    (hFamily : t.isIntFamily = true) (context : String) (hLower : lowerExpr F e b = .ok (x, b₁))
    (hKind : OfKind x.type isBool) : lowerExprTo F e t context b =
      (emitAssignConvert x.reg x.type t (some n) b₁).map fun r => (⟨r.1, t⟩, r.2) := by
  have hTarget : ¬(t.kind = .err ∨ t.kind = .void) := by
    obtain ⟨kind, name⟩ := t
    cases kind <;> first | (cases hFamily; done) | simp
  have hVoid : x.type.kind ≠ .void := by
    rcases hKind.cases with h | h | h <;> rw [h] <;> decide
  unfold lowerExprTo
  rw [hFold, hLower]
  simp only [Bind.bind, Except.bind, pure, Except.pure, hTarget, hVoid, if_false]
  rcases emitAssignConvert x.reg x.type t (some n) b₁ with message | r <;> rfl

theorem toInt_written (h : value32 e = some (w, isBool)) (hFits : inInt32 (written e) = true) :
    w.toInt = written e := by
  have hBounds := of_decide_eq_true hFits
  rw [← (wraps_written h).wraps, toInt_ofInt]
  exact Int.bmod_eq_of_le_mul_two (by omega) (by omega)

theorem leftBy_lowerExprTo {n : Int} (hValue : value32 e = some (w, isBool))
    (hFold : foldInt e = .yes n isBool) (hEq : w.toInt = n) (hFamily : t.isIntFamily = true)
    (context : String) : LeftBy (lowerExprTo F e t context) (registers e + 1) w := by
  subst hEq
  refine .of_runs fun b v b' hLower => ?_
  rcases hOk : lowerExpr F e b with message | ⟨x, b₁⟩
  · have hError : lowerExprTo F e t context b = .error message := by
      rw [lowerExprTo, hFold, hOk]
      rfl
    rw [hError] at hLower
    cases hLower
  · have hLeaves := lowerExpr_leaves hValue hOk
    rw [lowerExprTo_eq hFold hFamily context hOk hLeaves.type] at hLower
    rcases hConvert : emitAssignConvert x.reg x.type t (some w.toInt) b₁ with message | ⟨r, b₂⟩
    · rw [hConvert] at hLower
      cases hLower
    · rw [hConvert] at hLower
      cases hLower
      exact runs_assign hLeaves hFamily hConvert

/-- The fold of an expression is right exactly when nothing in it is undefined and its value as
it is written down, if it has one, is one of 32 bits. -/
theorem foldsRight_iff (F : Forms) (e : Expr) :
    FoldsRight F e ↔ calm e = true ∧ (value32 e ≠ none → inInt32 (written e) = true) := by
  constructor
  · intro h
    have hDefined := h.defined
    rw [foldInt_eq] at hDefined
    have hCalm : calm e = true := by
      by_contra hNot
      rw [Bool.not_eq_true] at hNot
      exact hDefined (foldOf_of_not_calm hNot)
    refine ⟨hCalm, fun hSome => ?_⟩
    obtain ⟨⟨w, isBool⟩, hValue⟩ := Option.ne_none_iff_exists'.mp hSome
    have hFold : foldInt e = .yes (written e) isBool := by
      rw [foldInt_eq, foldOf_of_calm hCalm, hValue]
    obtain ⟨u, hEq, -⟩ := h.value _ _ hFold
    rw [← hEq]
    exact decide_eq_true ⟨le_toInt u, toInt_lt⟩
  · rintro ⟨hCalm, hFits⟩
    have hFold := foldOf_of_calm hCalm
    rw [← foldInt_eq] at hFold
    refine ⟨?_, fun n isBool hYes => ?_⟩
    · rw [hFold]
      split <;> exact Fold.noConfusion
    rcases hValue : value32 e with _ | ⟨w, wBool⟩
    · rw [hFold, hValue] at hYes
      cases hYes
    rw [hValue] at hFold
    rw [hFold] at hYes
    cases hYes
    have hEq := toInt_written hValue (hFits (by rw [hValue]; exact Option.some_ne_none _))
    refine ⟨w, hEq, .of_runs fun b v b' hLower => ?_, ?_, fun t context hFamily =>
      ⟨leftBy_lowerExprTo hValue hFold hEq hFamily context, ?_⟩⟩
    · exact ⟨_, le_refl _, (lowerExpr_leaves hValue hLower).code⟩
    · rintro rfl
      have hBounds := of_decide_eq_true (hFits (by rw [hValue]; exact Option.some_ne_none _))
      rw [caseLabel, hFold]
      dsimp only
      rw [if_neg (by omega), (wraps_written hValue).wraps]
    · rintro hRange b ⟨x, b₁⟩ hOk
      have hKind := (lowerExpr_leaves hValue hOk).type
      rw [hEq] at hRange
      obtain ⟨y, hAccepted⟩ := assign_accepted hKind hFamily hRange x.reg b₁
      rw [lowerExprTo_eq hFold hFamily context hOk hKind, hAccepted]
      exact ⟨_, rfl⟩

/-! ### The least int -/

/-- Only the forms above are lowered. -/
def noForms : Forms where
  expr := fun _ _ => .error ""
  incDec := fun _ _ _ => .error ""
  toFloat := fun bits => bits.setWidth 32

/-- The least int, as it is written. -/
def leastInt : Expr := .prefixUnary .minus (.int 2147483648)

/-- It folds to a value that is no int, and its quotient by -1 is undefined. -/
theorem not_foldsRight : ¬FoldsRight noForms leastInt ∧
    ¬FoldsRight noForms (.binary .div leastInt (.prefixUnary .minus (.int 1))) := by
  constructor
  · intro h
    obtain ⟨w, hEq, -⟩ := h.value 2147483648 false (by decide)
    have hLt : w.toInt < 2 ^ 31 := toInt_lt
    omega
  · intro h
    exact h.defined (by decide)

/-- A case label that is the least int is refused. -/
example : caseLabel leastInt = .error ("case label is outside int range (expected: a value in " ++
    "[-2147483648, 2147483647])") := by decide

end B2Compiler.Frontend
