import B2Compiler.Frontend.LowerExpr
import B2Compiler.Interp.CodeRuns
import B2Compiler.Rbc.MethodCode

/-!
# What the code of a constant leaves

The code that is emitted for a constant ends behind itself, leaves the registers handed out
before alone, and leaves the value of the constant in the register of the result.  One lemma
for each form of expression, and an induction over expressions from them.
-/

namespace B2Compiler.Frontend

open Rbc Interp RbcBuilder List

/-! ## Pieces of code -/

/-- A piece of code was emitted: labels below `n` are as they were, and `k` registers were
handed out. -/
structure Emitted (n k : Nat) (b b' : RbcBuilder) : Prop where
  grows : Grows b b'
  labels : ∀ l < n, b'.boundAt[l]? = b.boundAt[l]?
  registers : b'.numRegs = b.numRegs + BitVec.ofNat 32 k

theorem Emitted.refl (n : Nat) (b : RbcBuilder) : Emitted n 0 b b :=
  ⟨.refl b, fun _ _ => rfl, (BitVec.add_zero _).symm⟩

variable {n k n' l p : Nat} {w u a : BitVec 32} {isBool isAnd : Bool} {v x y : Val} {t : JType}

theorem Emitted.trans {k' : Nat} {b b₁ b₂ : RbcBuilder} (h : Emitted n k b b₁)
    (h' : Emitted n k' b₁ b₂) : Emitted n (k + k') b b₂ where
  grows := h.grows.trans h'.grows
  labels := fun l hl => (h'.labels l hl).trans (h.labels l hl)
  registers := by
    rw [h'.registers, h.registers, BitVec.add_assoc, BitVec.ofNat_add]

theorem Emitted.mono {b b' : RbcBuilder} (h : Emitted n k b b') (hLe : n' ≤ n) :
    Emitted n' k b b' :=
  ⟨h.grows, fun l hl => h.labels l (Nat.lt_of_lt_of_le hl hLe), h.registers⟩

theorem Emitted.length_le {b b' : RbcBuilder} (h : Emitted b.boundAt.length k b b') :
    b.boundAt.length ≤ b'.boundAt.length := by
  by_contra hLess
  have hSame := h.labels b'.boundAt.length (by omega)
  rw [getElem?_eq_none (Nat.le_refl _)] at hSame
  have := getElem?_eq_none_iff.mp hSame.symm
  omega

theorem emitted_newReg (n : Nat) (b : RbcBuilder) : Emitted n 1 b b.newReg :=
  ⟨.of_same rfl rfl rfl, fun _ _ => rfl, rfl⟩

theorem emitted_rawEmit (n : Nat) (b : RbcBuilder) (ins : Ins) : Emitted n 0 b (b.rawEmit ins) :=
  ⟨grows_rawEmit b ins, fun _ _ => rfl, (BitVec.add_zero _).symm⟩

theorem emitted_emitPatched (n : Nat) (b : RbcBuilder) (ins : Ins) (ls : List Nat) :
    Emitted n 0 b (b.emitPatched ins ls) :=
  ⟨grows_emitPatched b ins ls, fun _ _ => rfl, (BitVec.add_zero _).symm⟩

theorem emitted_newLabel (b : RbcBuilder) : Emitted b.boundAt.length 0 b b.newLabel :=
  ⟨grows_newLabel b, fun _ hl => getElem?_append_left hl, (BitVec.add_zero _).symm⟩

theorem bind_unbound {b : RbcBuilder} (h : b.boundAt[l]? = some .unbound) :
    b.bind l = { b with boundAt := b.boundAt.set l (.at b.code.length) } :=
  (bind_eq b l h).trans rfl

theorem bind_code (b : RbcBuilder) (l : Nat) : (b.bind l).code = b.code := by
  rcases hRead : b.boundAt[l]? with _ | x
  · rw [RbcBuilder.bind, hRead]
  · rw [bind_eq b l hRead]

theorem emitted_bind {b : RbcBuilder} (h : b.boundAt[l]? = some .unbound) (hle : n ≤ l) :
    Emitted n 0 b (b.bind l) := by
  refine ⟨grows_bind b l, fun k hk => ?_, ?_⟩
  · rw [bind_unbound h]
    exact getElem?_set_ne (by omega)
  · rw [bind_unbound h]
    exact (BitVec.add_zero _).symm

/-- A register that is handed out is the count in 16 bits. -/
theorem reg_toNat {n : BitVec 32} (h : n.toNat < 65536) : (n.setWidth 16).toNat = n.toNat := by
  rw [BitVec.toNat_setWidth]
  exact Nat.mod_eq_of_lt h

/-- The piece of code between two builders, run on registers; those handed out before it are
left alone. -/
structure Between (E : Env) (m : Method) (b b' : RbcBuilder) (regs regs' : List Value) :
    Prop where
  goes : Goes E m (b.code.length, regs) (b'.code.length, regs')
  length : regs'.length = regs.length
  below : ∀ i < b.numRegs.toNat, regs'.getD i .bottom = regs.getD i .bottom

variable {E : Env} {m : Method} {b b' b₁ b₂ c : RbcBuilder} {regs regs' regs₁ regs₂ : List Value}

theorem Between.trans (h : Between E m b b₁ regs regs₁) (h' : Between E m b₁ b₂ regs₁ regs₂)
    (hLe : b.numRegs.toNat ≤ b₁.numRegs.toNat) : Between E m b b₂ regs regs₂ where
  goes := h.goes.trans h'.goes
  length := h'.length.trans h.length
  below := fun i hi => (h'.below i (Nat.lt_of_lt_of_le hi hLe)).trans (h.below i hi)

theorem between_put {ins : Ins} {v : Value} (hTidy : b.Tidy) (hPublished : Published c m)
    (hGrows : Grows (b.newReg.rawEmit ins) c) (hDst : ins.dst = b.numRegs.setWidth 16)
    (hRoom : b.numRegs.toNat < 65536)
    (hExec : ∀ A f, f.regs = regs → exec E A f ins = put A f ins v) :
    Between E m b (b.newReg.rawEmit ins) regs (regs.set b.numRegs.toNat v) := by
  have hCode : m.code[b.code.length]? = some ins :=
    Published.plain (b := b.newReg) hPublished hGrows hTidy
  have hReg : ins.dstReg = b.numRegs.toNat := by
    rw [Ins.dstReg, hDst, reg_toNat hRoom]
  refine ⟨?_, length_set, fun i hi => ?_⟩
  · have hGoes := goes_put hCode hExec
    rw [hReg] at hGoes
    have hLength : (b.newReg.rawEmit ins).code.length = b.code.length + 1 := length_append
    rw [hLength]
    exact hGoes
  · rw [getD_eq_getElem?_getD, getD_eq_getElem?_getD, getElem?_set_ne (Nat.ne_of_gt hi)]

/-! ## What a constant leaves -/

/-- The static type of a value of int or char, or of a boolean. -/
def OfKind (t : JType) (isBool : Bool) : Prop :=
  if isBool then t.kind = .bool else t.kind = .int ∨ t.kind = .char

/-- A piece of code that takes `n` registers, and what holds of the registers behind it. -/
structure Runs (n : Nat) (b b' : RbcBuilder) (Q : List Value → Prop) : Prop where
  emitted : Emitted b.boundAt.length n b b'
  runs : ∀ {E : Env} {m : Method} {c : RbcBuilder} {regs : List Value}, b.Tidy →
    Published c m → Grows b' c → b.numRegs.toNat + n ≤ regs.length → regs.length ≤ 65536 →
      ∃ regs', Between E m b b' regs regs' ∧ Q regs'

/-- A value is in a register. -/
def Has (v : Val) (w : BitVec 32) (regs : List Value) : Prop :=
  regs.getD v.reg.toNat .bottom = .intVal w

/-- A piece of code leaves a value in its result register, which is one of the `n` that the
piece takes. -/
structure Leaves (n : Nat) (w : BitVec 32) (isBool : Bool) (b : RbcBuilder) (v : Val)
    (b' : RbcBuilder) : Prop where
  code : Runs n b b' (Has v w)
  type : OfKind v.type isBool
  reg : ∃ k < n, v.reg = (b.numRegs + BitVec.ofNat 32 k).setWidth 16

theorem numRegs_add (hRoom : b.numRegs.toNat + n ≤ 65536) (hk : k ≤ n) :
    (b.numRegs + BitVec.ofNat 32 k).toNat = b.numRegs.toNat + k := by
  rw [BitVec.toNat_add, BitVec.toNat_ofNat, Nat.mod_eq_of_lt (show k < 2 ^ 32 by omega),
    Nat.mod_eq_of_lt (by omega)]

theorem Emitted.numRegs (h : Emitted n k b b') (hRoom : b.numRegs.toNat + k ≤ 65536) :
    b'.numRegs.toNat = b.numRegs.toNat + k := by
  rw [h.registers, numRegs_add hRoom (Nat.le_refl k)]

theorem Leaves.reg_lt (h : Leaves n w isBool b v b') (hRoom : b.numRegs.toNat + n ≤ 65536) :
    v.reg.toNat < b'.numRegs.toNat := by
  obtain ⟨k, hk, hReg⟩ := h.reg
  have hEq := numRegs_add hRoom (Nat.le_of_lt hk)
  rw [hReg, reg_toNat (by omega), hEq, h.code.emitted.numRegs hRoom]
  omega

theorem Runs.refl (b : RbcBuilder) : Runs 0 b b fun _ => True :=
  ⟨.refl _ b, fun {_ _ _ regs} _ _ _ _ _ =>
    ⟨regs, ⟨.refl _, rfl, fun _ _ => rfl⟩, trivial⟩⟩

/-- One piece behind the other; what held of registers that were handed out still holds. -/
theorem Runs.trans {Q Q' : List Value → Prop} (h : Runs n b b₁ Q) (h' : Runs n' b₁ b₂ Q')
    (hKeeps : b.numRegs.toNat + n ≤ 65536 → ∀ regs regs', Q regs →
      (∀ i < b₁.numRegs.toNat, regs'.getD i .bottom = regs.getD i .bottom) → Q regs') :
    Runs (n + n') b b₂ fun regs => Q regs ∧ Q' regs where
  emitted := h.emitted.trans (h'.emitted.mono h.emitted.length_le)
  runs := by
    intro E m c regs hTidy hPublished hGrows hRoom hMax
    obtain ⟨regs₁, hBetween, hQ⟩ := h.runs (E := E) hTidy hPublished (h'.emitted.grows.trans hGrows)
      (by omega) hMax
    have hCount := h.emitted.numRegs (by omega)
    have hLength := hBetween.length
    have hMax₁ : regs₁.length ≤ 65536 := by omega
    obtain ⟨regs₂, hBetween', hQ'⟩ := h'.runs (h.emitted.grows.tidy hTidy) hPublished hGrows
      (by omega) hMax₁
    exact ⟨regs₂, hBetween.trans hBetween' (by omega),
      hKeeps (by omega) regs₁ regs₂ hQ hBetween'.below, hQ'⟩

theorem Leaves.both {w' : BitVec 32} {isBool' : Bool} (h : Leaves n w isBool b x b₁)
    (h' : Leaves n' w' isBool' b₁ y b₂) :
    Runs (n + n') b b₂ fun regs => Has x w regs ∧ Has y w' regs :=
  h.code.trans h'.code fun hRoom _ _ hHas hBelow => (hBelow _ (h.reg_lt hRoom)).trans hHas

/-- A result is written by one more instruction, into a new register. -/
theorem Runs.put {Q : List Value → Prop} (h : Runs n b b₁ Q) (ins : Ins)
    (hDst : ins.dst = b₁.numRegs.setWidth 16) (hType : OfKind t isBool)
    (hExec : ∀ E A f, Q f.regs → exec E A f ins = put A f ins (.intVal u)) :
    Leaves (n + 1) u isBool b ⟨ins.dst, t⟩ (b₁.newReg.rawEmit ins) where
  code.emitted := (h.emitted.trans (emitted_newReg _ b₁)).trans (emitted_rawEmit _ _ ins)
  code.runs := by
    intro E m c regs hTidy hPublished hGrows hRoom hMax
    have hLast : Grows b₁ (b₁.newReg.rawEmit ins) :=
      (emitted_newReg 0 b₁).grows.trans (grows_rawEmit _ ins)
    obtain ⟨regs₁, hBetween, hQ⟩ :=
      h.runs (E := E) hTidy hPublished (hLast.trans hGrows) (by omega) hMax
    have hCount := h.emitted.numRegs (by omega)
    have hPut := between_put (E := E) (h.emitted.grows.tidy hTidy) hPublished hGrows hDst
      (by omega) fun A f hRegs => hExec E A f (hRegs ▸ hQ)
    refine ⟨_, hBetween.trans hPut (by omega), ?_⟩
    rw [Has, hDst, reg_toNat (by omega), getD_eq_getElem?_getD, getElem?_set_self]
    · rfl
    · rw [hBetween.length]
      omega
  type := hType
  reg := ⟨n, Nat.lt_succ_self n, by rw [hDst, h.emitted.registers]⟩

theorem leaves_iconst (hType : OfKind t isBool) (imm : BitVec 32) (b : RbcBuilder) :
    Leaves 1 imm isBool b (emitConst .iconst imm t b).1 (emitConst .iconst imm t b).2 := by
  let ins : Ins := ⟨.iconst, b.numRegs.setWidth 16, 0, 0, imm⟩
  show Leaves (0 + 1) imm isBool b ⟨ins.dst, t⟩ (b.newReg.rawEmit ins)
  exact (Runs.refl b).put ins rfl hType fun _ _ _ _ => rfl

/-! ## Prefix operators -/

variable {F : Forms} {operand : Expr}

theorem asInt_intVal (w : BitVec 32) : (Value.intVal w).asInt = w :=
  BitVec.setWidth_setWidth_of_le w (by decide)

/-- The instruction of an operator on two ints. -/
theorem arith_binary32 (G : FloatOps) {op : BinaryOp} {dst i j : BitVec 16} {b : BitVec 32}
    {reg : Nat → Value} (h : binary32 op a b = some (u, false)) (hA : (reg i.toNat).asInt = a)
    (hB : (reg j.toNat).asInt = b) :
    arith G ⟨arithOpOf op .int, dst, i, j, 0⟩ reg = some (.value (.intVal u)) := by
  subst hA hB
  cases op with
  | add =>
    cases h
    exact congrArg (fun u => some (ArithResult.value (.intVal u))) (wrapAdd32_eq _ _)
  | sub =>
    cases h
    exact congrArg (fun u => some (ArithResult.value (.intVal u))) (wrapSub32_eq _ _)
  | mul =>
    cases h
    exact congrArg (fun u => some (ArithResult.value (.intVal u))) (wrapMul32_eq _ _)
  | div | mod =>
    rw [binary32] at h
    split_ifs at h with hZero
    cases h
    exact if_neg hZero
  | shl | shr | ushr | and | or | xor =>
    cases h
    rfl
  | cand | cor | lt | gt | le | ge | eq | ne => cases h

/-- An operator on two ints that are in registers. -/
theorem Runs.binary {c : BitVec 32} {op : BinaryOp}
    (h : Runs n b b₁ fun regs => Has x a regs ∧ Has y c regs)
    (hValue : binary32 op a c = some (u, false)) (hType : OfKind t isBool) :
    Leaves (n + 1) u isBool b ⟨b₁.numRegs.setWidth 16, t⟩
      (b₁.newReg.emitRegRegReg (arithOpOf op .int) (b₁.numRegs.setWidth 16) x.reg y.reg) := by
  refine h.put ⟨arithOpOf op .int, b₁.numRegs.setWidth 16, x.reg, y.reg, 0⟩ rfl hType ?_
  rintro E A f ⟨hx, hy⟩
  refine exec_arith (arith_binary32 _ hValue ?_ ?_)
  · rw [Frame.reg, hx, asInt_intVal]
  · rw [Frame.reg, hy, asInt_intVal]

theorem emitConvert_int (h : OfKind t isBool) (reg : BitVec 16) (b : RbcBuilder) :
    emitConvert reg t (.prim .int) b = (reg, b) := by
  unfold OfKind at h
  unfold emitConvert
  cases isBool with
  | true => simp only [JType.prim, show t.kind = .bool from h]
  | false =>
    rcases (show t.kind = .int ∨ t.kind = .char from h) with h | h <;>
      simp only [JType.prim, h]

theorem unaryType_eq (h : OfKind t isBool) : unaryType t = .prim .int := by
  have hFamily : t.isIntFamily = true := by
    unfold OfKind at h
    unfold JType.isIntFamily
    split_ifs at h
    · rw [h]
    · rcases h with h | h <;> rw [h]
  rw [unaryType, if_pos hFamily]

theorem ofKind_int : OfKind (.prim .int) false := .inl rfl

theorem ofKind_bool : OfKind (.prim .bool) true := rfl

theorem leaves_plus (h : Leaves n w isBool b x b₁)
    (hLower : lowerPrefix F .plus operand x b₁ = .ok (v, b')) : Leaves n w false b v b' := by
  rw [lowerPrefix] at hLower
  split_ifs at hLower
  cases hLower
  exact ⟨h.code, unaryType_eq h.type ▸ ofKind_int, h.reg⟩

theorem leaves_minus (h : Leaves n w isBool b x b₁) (hNone : negatedLiteral F operand b₁ = none)
    (hLower : lowerPrefix F .minus operand x b₁ = .ok (v, b')) :
    Leaves (n + 1) (-w) false b v b' := by
  rw [lowerPrefix, lowerMinus] at hLower
  split_ifs at hLower
  simp only [hNone, unaryType_eq h.type, emitConvert_int h.type] at hLower
  cases hLower
  refine h.code.put ⟨.ineg, b₁.numRegs.setWidth 16, x.reg, 0, 0⟩ rfl ofKind_int fun E A f hx => ?_
  refine exec_arith ?_
  show some (ArithResult.value (.intVal (neg32 (f.reg x.reg.toNat).asInt))) = _
  rw [Frame.reg, hx, asInt_intVal]
  exact congrArg (fun u => some (ArithResult.value (.intVal u))) (BitVec.zero_sub w)

theorem leaves_bitNot (h : Leaves n w isBool b x b₁)
    (hLower : lowerPrefix F .bitNot operand x b₁ = .ok (v, b')) :
    Leaves (n + 2) (~~~w) false b v b' := by
  rw [lowerPrefix, lowerBitNot] at hLower
  split_ifs at hLower
  simp only [unaryType_eq h.type, emitConvert_int h.type] at hLower
  cases hLower
  have hOnes := leaves_iconst ofKind_int 0xFFFFFFFF b₁
  have hValue : binary32 .xor w 0xFFFFFFFF = some (~~~w, false) :=
    congrArg (fun u => some (u, false)) BitVec.xor_allOnes
  exact (h.both hOnes).binary hValue ofKind_int

theorem leaves_logicalNot (h : Leaves n w true b x b₁) (hBit : w = 0 ∨ w = 1)
    (hLower : lowerPrefix F .logicalNot operand x b₁ = .ok (v, b')) :
    Leaves (n + 2) (if w = 0 then 1 else 0) true b v b' := by
  rw [lowerPrefix, lowerLogicalNot] at hLower
  split_ifs at hLower
  cases hLower
  have hOne : Leaves 1 1 true b₁ _ _ := leaves_iconst ofKind_bool 1 b₁
  have hValue : binary32 .xor w 1 = some (if w = 0 then 1 else 0, false) := by
    rcases hBit with rfl | rfl <;> rfl
  exact (h.both hOne).binary hValue ofKind_bool

theorem promote_eq {s : JType} (hs : OfKind s false) (ht : OfKind t false) :
    promote s t = .prim .int := by
  have hKind : ∀ {t : JType}, OfKind t false → t.kind = .int ∨ t.kind = .char := fun h => h
  unfold promote
  rcases hKind hs with hs | hs <;> rcases hKind ht with ht | ht <;> rw [hs, ht] <;> rfl

theorem binary32_kind {op : BinaryOp} {c : BitVec 32} (h : binary32 op a c = some (u, isBool)) :
    isCompare op = false ∧ isBool = isLogical op := by
  cases op with
  | div | mod =>
    rw [binary32] at h
    split_ifs at h
    cases h
    exact ⟨rfl, rfl⟩
  | lt | gt | le | ge | eq | ne => cases h
  | _ =>
    cases h
    exact ⟨rfl, rfl⟩

theorem leaves_binary {c : BitVec 32} {op : BinaryOp}
    (h : Runs n b b₁ fun regs => Has x a regs ∧ Has y c regs) (hx : OfKind x.type false)
    (hy : OfKind y.type false) (hOp : isLogical op = false)
    (hValue : binary32 op a c = some (u, isBool)) (hLower : lowerBinary op x y b₁ = .ok (v, b')) :
    Leaves (n + 1) u isBool b v b' := by
  obtain ⟨hCompare, hBool⟩ := binary32_kind hValue
  rw [hOp] at hBool
  subst hBool
  unfold lowerBinary lowerArith lowerShift at hLower
  simp only [hCompare, unaryType_eq hx, promote_eq hx hy, emitConvert_int hx, emitConvert_int hy,
    Bool.false_eq_true, if_false] at hLower
  split_ifs at hLower
  all_goals
    cases hLower
    exact h.binary hValue ofKind_int

/-! ## Logical operators -/

/-- The operand decides: the other one is not looked at. -/
def decides (isAnd : Bool) (w : BitVec 32) : Bool := if isAnd then w = 0 else w ≠ 0

def testOp (isAnd : Bool) : Op := if isAnd then .ifeq else .ifne

/-- The code of a logical operator around that of its right operand, which ends at `p`. -/
structure LogicalCode (m : Method) (isAnd : Bool) (start p : Nat) (x y r : BitVec 16) : Prop where
  left : ∃ ins, m.code[start]? = some ins ∧ ins.op = testOp isAnd ∧ ins.a = x ∧ ins.immIdx = p + 3
  right : ∃ ins, m.code[p]? = some ins ∧ ins.op = testOp isAnd ∧ ins.a = y ∧ ins.immIdx = p + 3
  full : m.code[p + 1]? = some ⟨.iconst, r, 0, 0, if isAnd then 1 else 0⟩
  skip : ∃ ins, m.code[p + 2]? = some ins ∧ ins.op = .goto ∧ ins.immIdx = p + 4
  short : m.code[p + 3]? = some ⟨.iconst, r, 0, 0, if isAnd then 0 else 1⟩

/-- The builder at the right operand, and the one behind the operator. -/
def rightBuilder (isAnd : Bool) (x : Val) (b : RbcBuilder) : RbcBuilder :=
  (beginLogical isAnd x b).2.2.2

def logicalBuilder (isAnd : Bool) (y : Val) (l : Nat) (r : BitVec 16) (b : RbcBuilder) :
    RbcBuilder := (endLogical isAnd l (l + 1) r y b).2

/-- A branch on a register that decides, or does not. -/
theorem goes_test {target : Nat}
    (hCode : ∃ ins, m.code[p]? = some ins ∧ ins.op = testOp isAnd ∧ ins.a = x.reg ∧
      ins.immIdx = target) (hx : Has x w regs) :
    Goes E m (p, regs) (if decides isAnd w then target else p + 1, regs) := by
  obtain ⟨ins, hIns, hOp, hReg, rfl⟩ := hCode
  have hValue : (regs.getD ins.aReg .bottom).asInt = w := by
    rw [Ins.aReg, hReg, hx, asInt_intVal]
  refine goes_truth hIns (by cases isAnd <;> simp [hOp, testOp]) ?_
  cases isAnd with
  | true => simp only [branchTaken, hOp, testOp, if_true, hValue, decides]
  | false => simp only [branchTaken, hOp, testOp, hValue, decides, Bool.false_eq_true, if_false]

/-- The code behind the right operand: its test, the value for the full way, and the jump over
the short one. -/
def rightTest (isAnd : Bool) (y : Val) (l : Nat) (b : RbcBuilder) : RbcBuilder :=
  b.emitRegBranch (testOp isAnd) y.reg l

def rightPut (isAnd : Bool) (y : Val) (l : Nat) (r : BitVec 16) (b : RbcBuilder) : RbcBuilder :=
  (rightTest isAnd y l b).emitRegImm .iconst r (if isAnd then 1 else 0)

def fullWay (isAnd : Bool) (y : Val) (l : Nat) (r : BitVec 16) (b : RbcBuilder) : RbcBuilder :=
  (rightPut isAnd y l r b).emitBranch .goto (l + 1)

/-- And up to the end. -/
def bothWays (isAnd : Bool) (y : Val) (l : Nat) (r : BitVec 16) (b : RbcBuilder) : RbcBuilder :=
  ((fullWay isAnd y l r b).bind l).emitRegImm .iconst r (if isAnd then 0 else 1)

theorem logicalBuilder_eq (isAnd : Bool) (y : Val) (l : Nat) (r : BitVec 16) (b : RbcBuilder) :
    logicalBuilder isAnd y l r b = (bothWays isAnd y l r b).bind (l + 1) := rfl

theorem fullWay_length (isAnd : Bool) (y : Val) (l : Nat) (r : BitVec 16) (b : RbcBuilder) :
    (fullWay isAnd y l r b).code.length = b.code.length + 3 := by
  show (((b.code ++ [_]) ++ [_]) ++ [_]).length = _
  simp only [length_append, length_singleton]

theorem bothWays_length (isAnd : Bool) (y : Val) (l : Nat) (r : BitVec 16) (b : RbcBuilder) :
    (bothWays isAnd y l r b).code.length = b.code.length + 4 := by
  show (((fullWay isAnd y l r b).bind l).code ++ [_]).length = _
  rw [bind_code, length_append, fullWay_length]
  rfl

theorem logicalBuilder_length (isAnd : Bool) (y : Val) (l : Nat) (r : BitVec 16)
    (b : RbcBuilder) : (logicalBuilder isAnd y l r b).code.length = b.code.length + 4 := by
  rw [logicalBuilder_eq, bind_code, bothWays_length]

theorem emitted_fullWay (n : Nat) (isAnd : Bool) (y : Val) (l : Nat) (r : BitVec 16)
    (b : RbcBuilder) : Emitted n 0 b (fullWay isAnd y l r b) :=
  ((emitted_emitPatched n b _ _).trans (emitted_rawEmit n _ _)).trans (emitted_emitPatched n _ _ _)

theorem grows_fullWay (isAnd : Bool) (y : Val) (l : Nat) (r : BitVec 16) (b : RbcBuilder) :
    Grows (fullWay isAnd y l r b) (logicalBuilder isAnd y l r b) :=
  ((grows_bind _ l).trans (grows_rawEmit _ _)).trans (grows_bind (bothWays isAnd y l r b) (l + 1))

/-- The two labels are still free behind the right operand, and are bound at its end. -/
theorem emitted_logical (r : BitVec 16) (isAnd : Bool) (y : Val) {b b₁ : RbcBuilder}
    (h : Emitted (l + 2) k b b₁) (hShort : b.boundAt[l]? = some .unbound)
    (hEnd : b.boundAt[l + 1]? = some .unbound) : Emitted l k b (logicalBuilder isAnd y l r b₁) ∧
      (logicalBuilder isAnd y l r b₁).boundAt[l]? = some (.at (b₁.code.length + 3)) ∧
      (logicalBuilder isAnd y l r b₁).boundAt[l + 1]? = some (.at (b₁.code.length + 4)) := by
  have hFree : ∀ k < l + 2, (fullWay isAnd y l r b₁).boundAt[k]? = b.boundAt[k]? := h.labels
  have hShort' := (hFree l (by omega)).trans hShort
  have hFirst := emitted_bind hShort' (Nat.le_refl l)
  have hMiddle : Emitted l 0 _ (bothWays isAnd y l r b₁) := emitted_rawEmit l _ _
  have hBound : (bothWays isAnd y l r b₁).boundAt =
      (fullWay isAnd y l r b₁).boundAt.set l (.at (b₁.code.length + 3)) := by
    show ((fullWay isAnd y l r b₁).bind l).boundAt = _
    rw [bind_unbound hShort', ← fullWay_length isAnd y l r b₁]
  have hLength := bothWays_length isAnd y l r b₁
  have hEnd' : (bothWays isAnd y l r b₁).boundAt[l + 1]? = some .unbound := by
    rw [hBound, getElem?_set_ne (Nat.ne_of_lt (Nat.lt_succ_self l))]
    exact (hFree (l + 1) (by omega)).trans hEnd
  have hLast := emitted_bind hEnd' (Nat.le_succ l)
  rw [logicalBuilder_eq]
  refine ⟨((((h.mono (by omega)).trans (emitted_fullWay l isAnd y l r b₁)).trans hFirst).trans
    hMiddle).trans hLast, ?_, ?_⟩
  · rw [bind_unbound hEnd']
    refine (getElem?_set_ne (by omega)).trans ?_
    rw [hBound]
    exact List.getElem?_set_self (List.getElem?_eq_some_iff.mp hShort').1
  · rw [bind_unbound hEnd', ← hLength]
    exact List.getElem?_set_self (List.getElem?_eq_some_iff.mp hEnd').1

/-- What is there before the right operand: the two labels, and a register for the result. -/
theorem emitted_right (isAnd : Bool) (x : Val) (b : RbcBuilder) :
    Emitted b.boundAt.length 1 b (rightBuilder isAnd x b) := by
  have hLabel := emitted_newLabel b.newLabel
  have hTwo := (emitted_newLabel b).trans (hLabel.mono (emitted_newLabel b).length_le)
  exact (hTwo.trans (emitted_newReg _ _)).trans (emitted_emitPatched _ _ _ _)

theorem right_labels (isAnd : Bool) (x : Val) (b : RbcBuilder) :
    (rightBuilder isAnd x b).boundAt = b.boundAt ++ [.unbound] ++ [.unbound] := rfl

theorem right_free (isAnd : Bool) (x : Val) (b : RbcBuilder) :
    (rightBuilder isAnd x b).boundAt[b.boundAt.length]? = some .unbound ∧
      (rightBuilder isAnd x b).boundAt[b.boundAt.length + 1]? = some .unbound := by
  rw [right_labels]
  constructor <;> simp

theorem right_length (isAnd : Bool) (x : Val) (b : RbcBuilder) :
    (rightBuilder isAnd x b).code.length = b.code.length + 1 := length_append

theorem logicalCode {r : BitVec 16} {b b₁ c : RbcBuilder} (hTidy : b.Tidy)
    (h : Emitted (b.boundAt.length + 2) k (rightBuilder isAnd x b) b₁) (hPublished : Published c m)
    (hGrows : Grows (logicalBuilder isAnd y b.boundAt.length r b₁) c) :
    LogicalCode m isAnd b.code.length b₁.code.length x.reg y.reg r := by
  obtain ⟨hShort, hEnd⟩ := right_free isAnd x b
  obtain ⟨hAll, hAtShort, hAtEnd⟩ :=
    emitted_logical r isAnd y h hShort hEnd
  obtain ⟨l, hl⟩ : ∃ l, b.boundAt.length = l := ⟨_, rfl⟩
  have hStart : rightBuilder isAnd x b =
      b.newLabel.newLabel.newReg.emitPatched ⟨testOp isAnd, 0, x.reg, 0, 0⟩ [l] := by
    rw [← hl]
    rfl
  rw [hl] at hAll hAtShort hAtEnd hGrows
  have hTidyStart : b.newLabel.newLabel.newReg.Tidy := hTidy
  have hTidy₁ : b₁.Tidy := h.grows.tidy ((emitted_right isAnd x b).grows.tidy hTidy)
  have hTest : Grows b₁ (rightTest isAnd y l b₁) := grows_emitPatched _ _ _
  have hPut : Grows (rightTest isAnd y l b₁) (rightPut isAnd y l r b₁) := grows_rawEmit _ _
  have hSkip : Grows (rightPut isAnd y l r b₁) (fullWay isAnd y l r b₁) := grows_emitPatched _ _ _
  have hFromFull := grows_fullWay isAnd y l r b₁
  have hLengthTest : (rightTest isAnd y l b₁).code.length = b₁.code.length + 1 :=
    length_append
  have hLengthPut : (rightPut isAnd y l r b₁).code.length = b₁.code.length + 2 :=
    length_append.trans (congrArg (· + 1) hLengthTest)
  have hLengthBind : ((fullWay isAnd y l r b₁).bind l).code.length = b₁.code.length + 3 := by
    rw [bind_code, fullWay_length]
  constructor
  · rw [hStart] at hAll
    obtain ⟨hCode, hImm⟩ := hPublished.branch hTidyStart hAll.grows hAtShort hGrows
    exact ⟨_, hCode, rfl, rfl, hImm⟩
  · have hUp : Grows (rightTest isAnd y l b₁) (logicalBuilder isAnd y l r b₁) :=
      (hPut.trans hSkip).trans hFromFull
    obtain ⟨hCode, hImm⟩ := hPublished.branch hTidy₁ hUp hAtShort hGrows
    exact ⟨_, hCode, rfl, rfl, hImm⟩
  · rw [← hLengthTest]
    exact hPublished.plain ((hSkip.trans hFromFull).trans hGrows) (hTest.tidy hTidy₁)
  · obtain ⟨hCode, hImm⟩ :=
      hPublished.branch (hPut.tidy (hTest.tidy hTidy₁)) hFromFull hAtEnd hGrows
    rw [hLengthPut] at hCode
    exact ⟨_, hCode, rfl, hImm⟩
  · rw [← hLengthBind]
    exact hPublished.plain ((grows_bind (bothWays isAnd y l r b₁) (l + 1)).trans hGrows)
      ((grows_bind _ l).tidy (hSkip.tidy (hPut.tidy (hTest.tidy hTidy₁))))

def logicalValue (isAnd : Bool) (a c : BitVec 32) : BitVec 32 :=
  if decides isAnd a ∨ decides isAnd c then (if isAnd then 0 else 1) else if isAnd then 1 else 0

theorem LogicalCode.goes_short {start : Nat} {x y r : BitVec 16}
    (h : LogicalCode m isAnd start p x y r) (regs : List Value) :
    Goes E m (p + 3, regs) (p + 4, regs.set r.toNat (.intVal (if isAnd then 0 else 1))) :=
  goes_iconst regs h.short rfl

theorem LogicalCode.goes_rest {start : Nat} {x r : BitVec 16}
    (h : LogicalCode m isAnd start p x y.reg r) (hy : Has y w regs)
    (hLeft : decides isAnd a = false) :
    Goes E m (p, regs) (p + 4, regs.set r.toNat (.intVal (logicalValue isAnd a w))) := by
  have hTest := goes_test (E := E) h.right hy
  rcases hRight : decides isAnd w with _ | _
  · rw [hRight] at hTest
    have hValue : logicalValue isAnd a w = if isAnd then 1 else 0 := by
      rw [logicalValue, hLeft, hRight]
      rfl
    have hPut := goes_iconst (E := E) regs h.full rfl
    obtain ⟨ins, hIns, hOp, hTarget⟩ := h.skip
    have hSkip := goes_goto (E := E) (regs.set r.toNat (.intVal (if isAnd then 1 else 0))) hIns hOp
    rw [hTarget] at hSkip
    rw [hValue]
    exact (hTest.trans hPut).trans hSkip
  · rw [hRight] at hTest
    have hValue : logicalValue isAnd a w = if isAnd then 0 else 1 := by
      rw [logicalValue, hRight]
      exact if_pos (.inr rfl)
    rw [hValue]
    exact hTest.trans (h.goes_short regs)

/-- A value for a register that was not handed out before. -/
theorem Between.write (h : Between E m b b₁ regs regs₁) {r : Nat} {v : Value}
    (hGoes : Goes E m (b₁.code.length, regs₁) (p, regs₁.set r v)) (hEnd : b'.code.length = p)
    (hNew : b.numRegs.toNat ≤ r) : Between E m b b' regs (regs₁.set r v) where
  goes := h.goes.trans (hEnd ▸ hGoes)
  length := length_set.trans h.length
  below := by
    intro i hi
    rw [← h.below i hi, getD_eq_getElem?_getD, getD_eq_getElem?_getD, getElem?_set_ne (by omega)]

theorem leaves_logical (hx : Leaves n a true b x b₁)
    (hy : Leaves n' w true (rightBuilder isAnd x b₁) y b₂) :
    Leaves (n + 1 + n') (logicalValue isAnd a w) true b ⟨b₁.numRegs.setWidth 16, .prim .bool⟩
      (logicalBuilder isAnd y b₁.boundAt.length (b₁.numRegs.setWidth 16) b₂) := by
  have hRight := emitted_right isAnd x b₁
  have hLabels : (rightBuilder isAnd x b₁).boundAt.length = b₁.boundAt.length + 2 := by
    rw [right_labels, length_append, length_append]
    rfl
  have hyEmitted := hLabels ▸ hy.code.emitted
  obtain ⟨hShort, hEnd⟩ := right_free isAnd x b₁
  obtain ⟨hAll, -, -⟩ :=
    emitted_logical (b₁.numRegs.setWidth 16) isAnd y hyEmitted hShort hEnd
  have hLe := hx.code.emitted.length_le
  refine ⟨⟨(hx.code.emitted.trans (hRight.mono hLe)).trans (hAll.mono hLe), ?_⟩, rfl, n, by omega,
    congrArg (BitVec.setWidth 16) hx.code.emitted.registers⟩
  intro E m c regs hTidy hPublished hGrows hRoom hMax
  have hTidy₁ := hx.code.emitted.grows.tidy hTidy
  have hCode := logicalCode hTidy₁ hyEmitted hPublished hGrows
  obtain ⟨regs₁, hBetween, hHas⟩ := hx.code.runs (E := E) hTidy hPublished
    ((hRight.grows.trans hAll.grows).trans hGrows) (by omega) hMax
  have hCount := hx.code.emitted.numRegs (by omega)
  have hLength := hBetween.length
  have hReg : (b₁.numRegs.setWidth 16).toNat = b₁.numRegs.toNat := reg_toNat (by omega)
  have hLast := logicalBuilder_length isAnd y b₁.boundAt.length (b₁.numRegs.setWidth 16) b₂
  have hTest := goes_test (E := E) hCode.left hHas
  rcases hLeft : decides isAnd a with _ | _
  · -- the right operand is evaluated
    rw [hLeft] at hTest
    have hMax₁ : regs₁.length ≤ 65536 := by omega
    have hStart := hRight.numRegs (by omega)
    have hBehind : Grows b₂
        (logicalBuilder isAnd y b₁.boundAt.length (b₁.numRegs.setWidth 16) b₂) :=
      (emitted_fullWay 0 isAnd y _ _ b₂).grows.trans (grows_fullWay isAnd y _ _ b₂)
    obtain ⟨regs₂, hBetween', hHas'⟩ := hy.code.runs (E := E) (hRight.grows.tidy hTidy₁)
      hPublished (hBehind.trans hGrows) (by omega) hMax₁
    have hAfter : Between E m b (rightBuilder isAnd x b₁) regs regs₁ :=
      ⟨hBetween.goes.trans (right_length isAnd x b₁ ▸ hTest), hLength, hBetween.below⟩
    have hBoth := hAfter.trans hBetween' (by omega)
    refine ⟨_, hBoth.write (hCode.goes_rest hHas' hLeft) hLast (by omega), ?_⟩
    rw [Has, getD_eq_getElem?_getD, getElem?_set_self]
    · rfl
    · have hLength' := hBetween'.length
      omega
  · rw [hLeft] at hTest
    have hValue : logicalValue isAnd a w = if isAnd then 0 else 1 := by
      rw [logicalValue, hLeft]
      exact if_pos (.inl rfl)
    rw [hValue]
    refine ⟨_, hBetween.write (hTest.trans (hCode.goes_short regs₁)) hLast (by omega), ?_⟩
    rw [Has, getD_eq_getElem?_getD, getElem?_set_self]
    · rfl
    · omega

/-! ## Expressions -/

/-- The registers that a constant takes. -/
def registers : Expr → Nat
  | .literal _ => 1
  | .paren inner => registers inner
  | .prefixUnary .plus operand => registers operand
  | .prefixUnary .minus operand => registers operand + 1
  | .prefixUnary _ operand => registers operand + 2
  | .binary _ lhs rhs => registers lhs + 1 + registers rhs
  | .other _ => 0

theorem leaves_literal {l : Literal} (h : value32 (.literal l) = some (w, isBool))
    (b : RbcBuilder) :
    Leaves 1 w isBool b (lowerLiteral F l b).1 (lowerLiteral F l b).2 := by
  obtain ⟨lit, intValue, floatValue, stringValue⟩ := l
  cases lit <;> cases h
  · exact leaves_iconst ofKind_int _ b
  · exact leaves_iconst (show OfKind (.prim .char) false from .inr rfl) _ b
  · exact leaves_iconst ofKind_bool _ b

/-- A negated constant is no float and no double. -/
theorem negatedLiteral_none {v : BitVec 32 × Bool} (h : value32 operand = some v)
    (b : RbcBuilder) : negatedLiteral F operand b = none := by
  cases operand with
  | literal l =>
    obtain ⟨lit, intValue, floatValue, stringValue⟩ := l
    cases lit <;> first | rfl | cases h
  | _ => rfl

theorem leaves_prefix {op : UnaryOp} (ih : ∀ {b v b' w isBool}, value32 operand = some (w, isBool) →
      lowerExpr F operand b = .ok (v, b') → Leaves (registers operand) w isBool b v b')
    (h : value32 (.prefixUnary op operand) = some (u, isBool))
    (hLower : lowerExpr F (.prefixUnary op operand) b = .ok (v, b')) :
    Leaves (registers (.prefixUnary op operand)) u isBool b v b' := by
  obtain ⟨⟨w, wBool⟩, hValue, hPrefix⟩ := Option.bind_eq_some_iff.mp h
  rw [lowerExpr] at hLower
  split_ifs at hLower with hStep
  · rcases hStep with rfl | rfl <;> cases hPrefix
  rcases hOperand : lowerExpr F operand b with message | ⟨x, b₁⟩
  · rw [hOperand] at hLower
    cases hLower
  rw [hOperand] at hLower
  have hx := ih hValue hOperand
  have hLower : lowerPrefix F op operand x b₁ = .ok (v, b') := hLower
  cases op with
  | plus =>
    cases hPrefix
    exact leaves_plus hx hLower
  | minus =>
    cases hPrefix
    exact leaves_minus hx (negatedLiteral_none hValue b₁) hLower
  | bitNot =>
    cases hPrefix
    exact leaves_bitNot hx hLower
  | logicalNot =>
    cases wBool with
    | false => cases hPrefix
    | true =>
      cases hPrefix
      exact leaves_logicalNot hx ((wraps_written hValue).truth rfl).2 hLower
  | preInc | preDec => cases hPrefix

theorem asBool_ok {x : Lowered} (h : x >>= asBool = .ok (v, b)) : x = .ok (v, b) := by
  rcases x with message | x
  · cases h
  · have hBool : asBool x = .ok (v, b) := h
    unfold asBool at hBool
    split_ifs at hBool
    rw [hBool]

theorem logicalValue_eq {op : BinaryOp} {c : BitVec 32} (hOp : isLogical op = true)
    (h : binary32 op a c = some (u, isBool)) : u = logicalValue (op == .cand) a c := by
  cases op with
  | cand | cor =>
    cases h
    by_cases hA : a = 0#32 <;> by_cases hC : c = 0#32 <;> simp [logicalValue, decides, hA, hC]
  | _ => cases hOp

theorem leaves_operator {op : BinaryOp} {lhs rhs : Expr}
    (ihL : ∀ {b v b' w isBool}, value32 lhs = some (w, isBool) →
      lowerExpr F lhs b = .ok (v, b') → Leaves (registers lhs) w isBool b v b')
    (ihR : ∀ {b v b' w isBool}, value32 rhs = some (w, isBool) →
      lowerExpr F rhs b = .ok (v, b') → Leaves (registers rhs) w isBool b v b')
    (h : value32 (.binary op lhs rhs) = some (u, isBool))
    (hLower : lowerExpr F (.binary op lhs rhs) b = .ok (v, b')) :
    Leaves (registers (.binary op lhs rhs)) u isBool b v b' := by
  obtain ⟨⟨a, aBool⟩, hL, hRest⟩ := Option.bind_eq_some_iff.mp h
  obtain ⟨⟨c, cBool⟩, hR, hBinary⟩ := Option.bind_eq_some_iff.mp hRest
  dsimp only at hBinary
  split_ifs at hBinary with hMixed
  rw [lowerExpr] at hLower
  split_ifs at hLower with hOp
  · have hBools : aBool = true ∧ cBool = true := by
      rw [mixed, if_pos hOp] at hMixed
      simpa using hMixed
    obtain ⟨rfl, rfl⟩ := hBools
    rcases hLeft : lowerExpr F lhs b >>= asBool with message | ⟨x, b₁⟩
    · rw [hLeft] at hLower
      cases hLower
    rw [hLeft] at hLower
    have hx := ihL hL (asBool_ok hLeft)
    have hLower : (lowerExpr F rhs (rightBuilder (op == .cand) x b₁) >>= asBool >>= fun y =>
        .ok (endLogical (op == .cand) b₁.boundAt.length (b₁.boundAt ++ [Bound.unbound]).length
          (b₁.numRegs.setWidth 16) y.1 y.2)) = .ok (v, b') := hLower
    rw [length_append, length_singleton] at hLower
    rcases hRight : lowerExpr F rhs (rightBuilder (op == .cand) x b₁) >>= asBool with
      message | ⟨y, b₂⟩
    · rw [hRight] at hLower
      cases hLower
    · rw [hRight] at hLower
      cases hLower
      have hy := ihR hR (asBool_ok hRight)
      rw [logicalValue_eq hOp hBinary, (binary32_kind hBinary).2, hOp]
      exact leaves_logical hx hy
  · have hBools : aBool = false ∧ cBool = false := by
      rw [mixed, if_neg hOp] at hMixed
      simpa using hMixed
    obtain ⟨rfl, rfl⟩ := hBools
    rw [Bool.not_eq_true] at hOp
    rcases hLeft : lowerExpr F lhs b with message | ⟨x, b₁⟩
    · rw [hLeft] at hLower
      cases hLower
    rw [hLeft] at hLower
    have hLower : (lowerExpr F rhs b₁ >>= fun y => lowerBinary op x y.1 y.2) =
        .ok (v, b') := hLower
    rcases hRight : lowerExpr F rhs b₁ with message | ⟨y, b₂⟩
    · rw [hRight] at hLower
      cases hLower
    rw [hRight] at hLower
    have hx := ihL hL hLeft
    have hy := ihR hR hRight
    have hBoth := leaves_binary (hx.both hy) hx.type hy.type hOp hBinary hLower
    have hCount : registers (.binary op lhs rhs) = registers lhs + registers rhs + 1 := by
      rw [registers]
      omega
    rw [hCount]
    exact hBoth

theorem lowerExpr_leaves {e : Expr} (h : value32 e = some (w, isBool))
    (hLower : lowerExpr F e b = .ok (v, b')) : Leaves (registers e) w isBool b v b' := by
  induction e generalizing b v b' w isBool with
  | literal l =>
    injection hLower with hEq
    have hLeaves := leaves_literal (F := F) h b
    rw [hEq] at hLeaves
    exact hLeaves
  | paren inner ih => exact ih h hLower
  | prefixUnary op operand ih => exact leaves_prefix ih h hLower
  | binary op lhs rhs ihL ihR => exact leaves_operator ihL ihR h hLower
  | other id => cases h

end B2Compiler.Frontend
