import B2Compiler.Passes.SccpFixpoint

/-!
# Soundness of the constant propagation

At a fixpoint, every execution agrees with the lattice: a node marked constant
yields that constant whenever it yields a value, and control only reaches nodes
marked executable.  The induction over the run carries the claim for the phis; the
value of every other node is then read off the graph.

The claim needs three things of the graph that the source does not look at.  A class
test must not read a never-null node: the source folds it to 0 as if it were a null
test.  A null or identity test must not read a never-null node that can merge null.
And a branch must have one projection of each kind, since only the first is marked.
-/

namespace B2Compiler.Passes

open Interp List Bool Sccp
open Ir
open Lib

/-- The graphs on which the transfer functions tell the truth. -/
structure Faithful (g : Graph) : Prop where
  instanceOf : ∀ n x, g.live n = true → g.kind n = .instanceOf → g.input n 0 = some x →
    g.isNeverNullNode x = false
  nullTests : NullConsistent g
  projections : ∀ n u u' k, g.kind n = .ifNode → (k = .ifTrue ∨ k = .ifFalse) →
    Projects g n u k → Projects g n u' k → u = u'

/-! ## Values are determined -/

section

variable {g : Graph} {W : World} {ρ : Held}

variable {n x u : NodeId} {v a : Val} {k : NodeKind} {c : ConstVal} {b : Bool}

theorem constant_kind (h : (g.node n).constant = some v) :
    g.kind n = .constantI ∨ g.kind n = .constantL ∨ g.kind n = .constantF ∨
      g.kind n = .constantD ∨ g.kind n = .constantNull := by
  unfold Node.constant at h
  unfold Graph.kind
  split at h
  · rename_i hKind
    exact Or.inl hKind
  · rename_i hKind
    exact Or.inr (Or.inl hKind)
  · rename_i hKind
    exact Or.inr (Or.inr (Or.inl hKind))
  · rename_i hKind
    exact Or.inr (Or.inr (Or.inr (Or.inl hKind)))
  · rename_i hKind
    exact Or.inr (Or.inr (Or.inr (Or.inr hKind)))
  · cases h

def valueForm (k : NodeKind) : Nat :=
  match k with
  | .constantI | .constantL | .constantF | .constantD | .constantNull => 0
  | .isNull => 1
  | .instanceOf => 2
  | .refEq => 3
  | _ => if k.isUnary then 4 else if k.isBinary then 5 else if k.isHeld then 6 else 7

theorem valueForm_constant (h : (g.node n).constant = some v) : valueForm (g.kind n) = 0 := by
  rcases constant_kind h with h | h | h | h | h <;> rw [h] <;> rfl

@[simp] theorem valueForm_unary (h : k.isUnary = true) : valueForm k = 4 := by
  cases k <;> first | rfl | cases h

@[simp] theorem valueForm_binary (h : k.isBinary = true) : valueForm k = 5 := by
  cases k <;> first | rfl | cases h

@[simp] theorem valueForm_held (h : k.isHeld = true) : valueForm k = 6 := by
  cases k <;> first | rfl | cases h

@[simp] theorem valueForm_isNull : valueForm .isNull = 1 := rfl

@[simp] theorem valueForm_instanceOf : valueForm .instanceOf = 2 := rfl

@[simp] theorem valueForm_refEq : valueForm .refEq = 3 := rfl

theorem evaluates_unique (h : Evaluates g W ρ n v) :
    ∀ {v' : Val}, Evaluates g W ρ n v' → v = v' := by
  induction h with
  | constant hDead hConst =>
    intro v' h'
    have hForm := valueForm_constant hConst
    cases h' with
    | constant _ hConst' => exact Option.some.inj (hConst.symm.trans hConst')
    | _ => simp_all
  | held hKind hHeld =>
    intro v' h'
    have hForm := valueForm_held hKind
    clear hKind
    cases h' with
    | held _ hHeld' => exact Option.some.inj (hHeld.symm.trans hHeld')
    | constant _ hConst' => simp_all [valueForm_constant hConst']
    | _ => simp_all
  | unary hKind hInput hArg hOp ih =>
    intro v' h'
    have hForm := valueForm_unary hKind
    clear hKind
    cases h' with
    | unary _ hInput' hArg' hOp' =>
      obtain rfl := Option.some.inj (hInput.symm.trans hInput')
      obtain rfl := ih hArg'
      exact Option.some.inj (hOp.symm.trans hOp')
    | constant _ hConst' => simp_all [valueForm_constant hConst']
    | _ => simp_all
  | binary hKind hLeft hRight hArg₁ hArg₂ hOp ih₁ ih₂ =>
    intro v' h'
    have hForm := valueForm_binary hKind
    clear hKind
    cases h' with
    | binary _ hLeft' hRight' hArg₁' hArg₂' hOp' =>
      obtain rfl := Option.some.inj (hLeft.symm.trans hLeft')
      obtain rfl := Option.some.inj (hRight.symm.trans hRight')
      obtain rfl := ih₁ hArg₁'
      obtain rfl := ih₂ hArg₂'
      exact Option.some.inj (hOp.symm.trans hOp')
    | constant _ hConst' => simp_all [valueForm_constant hConst']
    | _ => simp_all
  | isNull hKind hInput hArg hTest ih =>
    intro v' h'
    have hForm := congrArg valueForm hKind
    clear hKind
    cases h' with
    | isNull _ hInput' hArg' hTest' =>
      obtain rfl := Option.some.inj (hInput.symm.trans hInput')
      obtain rfl := ih hArg'
      rw [Option.some.inj (hTest.symm.trans hTest')]
    | constant _ hConst' => simp_all [valueForm_constant hConst']
    | _ => simp_all
  | instanceOf hKind hInput hArg hTest ih =>
    intro v' h'
    have hForm := congrArg valueForm hKind
    clear hKind
    cases h' with
    | instanceOf _ hInput' hArg' hTest' =>
      obtain rfl := Option.some.inj (hInput.symm.trans hInput')
      obtain rfl := ih hArg'
      rw [Option.some.inj (hTest.symm.trans hTest')]
    | constant _ hConst' => simp_all [valueForm_constant hConst']
    | _ => simp_all
  | refEq hKind hLeft hRight hArg₁ hArg₂ hTest ih₁ ih₂ =>
    intro v' h'
    have hForm := congrArg valueForm hKind
    clear hKind
    cases h' with
    | refEq _ hLeft' hRight' hArg₁' hArg₂' hTest' =>
      obtain rfl := Option.some.inj (hLeft.symm.trans hLeft')
      obtain rfl := Option.some.inj (hRight.symm.trans hRight')
      obtain rfl := ih₁ hArg₁'
      obtain rfl := ih₂ hArg₂'
      rw [Option.some.inj (hTest.symm.trans hTest')]
    | constant _ hConst' => simp_all [valueForm_constant hConst']
    | _ => simp_all

/-- The start node carries the memory state and no value. -/
theorem not_evaluates_start (hKind : g.kind n = .start) (h : Evaluates g W ρ n v) : False := by
  have hForm : valueForm (g.kind n) = 7 := by rw [hKind]; rfl
  clear hKind
  cases h with
  | constant _ hConst => simp [valueForm_constant hConst] at hForm
  | _ => simp_all

theorem inputOk_of_structureOk (hOk : g.structureOk = true) {slot : Nat} (hLive : g.live n = true)
    (hInput : g.input n slot = some x) : g.live x = true := by
  obtain ⟨hn, hDead⟩ := live_iff.mp hLive
  have hNode := all_eq_true.mp hOk n (mem_range.mpr hn)
  simp only [hDead, Bool.false_or, Bool.and_eq_true] at hNode
  have hMem : (x, slot) ∈ (g.node n).inputs.zipIdx := mk_mem_zipIdx_iff_getElem?.mpr hInput
  have hEdge := all_eq_true.mp hNode.1 (x, slot) hMem
  simp only [Graph.inputOk, Bool.and_eq_true, decide_eq_true_eq, Bool.not_eq_true'] at hEdge
  exact live_iff.mpr ⟨hEdge.1.1, hEdge.2⟩

theorem regionLike_of_structureOk (hOk : g.structureOk = true) {p r : NodeId}
    (hLive : g.live p = true) (hKind : g.kind p = .phi) (hInput : g.input p 0 = some r) :
    isRegionLikeK (g.kind r) = true := by
  obtain ⟨hn, hDead⟩ := live_iff.mp hLive
  have hNode := all_eq_true.mp hOk p (mem_range.mpr hn)
  simp only [hDead, Bool.false_or, Bool.and_eq_true] at hNode
  have hShape := hNode.2
  simp only [Graph.mergeShapeOk, hKind, hInput, Bool.and_eq_true] at hShape
  exact hShape.1

/-! ## Values agree with the lattice -/

variable {s : Sccp}

/-- The phis hold what the lattice says of them. -/
def PhisAgree (g : Graph) (s : Sccp) (ρ : Held) : Prop :=
  ∀ p v c, g.live p = true → g.kind p = .phi → ρ p = some v → s.val p = .const c → v = c.toVal

theorem constant_of_constOf (h : constOf g n = some c) : (g.node n).constant = some c.toVal := by
  unfold constOf at h
  dsimp only at h
  split at h
  · cases h
  · split at h <;> cases h <;> rename_i hKind <;>
      simp only [Node.constant, hKind, ConstVal.toVal]

theorem evaluable_iff_form (hLive : g.live n = true) :
    Evaluable g n ↔ g.kind n = .phi ∨ (1 ≤ valueForm (g.kind n) ∧ valueForm (g.kind n) ≤ 5) := by
  have hKind : ∀ k : NodeKind, (isEvalK k || k == .phi) = true ↔
      k = .phi ∨ (1 ≤ valueForm k ∧ valueForm k ≤ 5) := by
    intro k
    cases k <;> decide
  unfold Evaluable
  rw [hKind]
  simp [hLive]

/-- A node marked constant is seeded so or has a transfer function. -/
theorem live_of_const (hFix : Fixpoint g W.ops s) (hVal : s.val n = .const c) :
    g.live n = true := by
  by_contra hDead
  have hNot : ¬ Evaluable g n := fun h => hDead h.1
  rw [hFix.inv.seeded n hNot, seedVal, if_neg hDead] at hVal
  cases hVal

/-- An operand that yields a value is resolved: it has a live reader, so completion
would have forced it. -/
theorem operand_ne_top (hBuilt : Built g) (hOk : g.structureOk = true) (hFix : Fixpoint g W.ops s)
    {slot : Nat} (hLive : g.live n = true) (hInput : g.input n slot = some x)
    (hArg : Evaluates g W ρ x a) : s.val x ≠ .top := by
  intro hTop
  have hx := inputOk_of_structureOk hOk hLive hInput
  have hxLt := (live_iff.mp hx).1
  by_cases hEval : Evaluable g x
  · have hUse : (⟨n, slot⟩ : Use) ∈ g.usesOf x :=
      (hBuilt.useDef x n slot hxLt (live_iff.mp hLive).1).mpr hInput
    have hCount : g.liveUseCount x ≠ 0 := by
      intro hNone
      exact countP_eq_zero.mp hNone ⟨n, slot⟩ hUse (by simp [(live_iff.mp hLive).2])
    have hUnresolved : s.isUnresolved g x = true := by
      simp [isUnresolved, hx, hTop, hEval.2, hCount]
    rw [hFix.resolved x hxLt] at hUnresolved
    cases hUnresolved
  · rw [hFix.inv.seeded x hEval, seedVal, if_pos hx] at hTop
    split at hTop
    · cases hTop
    split at hTop
    · rename_i hStart
      rw [hStart] at hArg
      exact not_evaluates_start hBuilt.startKind hArg
    · rename_i hKind
      split at hTop
      · rename_i hEval'
        exact hEval ⟨hx, hEval'⟩
      · cases hTop

theorem valAt_of_live (hx : g.live x = true) : s.valAt g x = s.val x := by
  simp [valAt, (live_iff.mp hx).1]

theorem evalNode_eq_const (hFix : Fixpoint g W.ops s)
    (hForm : 1 ≤ valueForm (g.kind n) ∧ valueForm (g.kind n) ≤ 5) (hVal : s.val n = .const c)
    (hResolved : s.evalNode g W.ops n ≠ .top) : s.evalNode g W.ops n = .const c := by
  have hEval : Evaluable g n := (evaluable_iff_form (live_of_const hFix hVal)).mpr (Or.inr hForm)
  have hPhi : g.kind n ≠ .phi := by
    intro hKind
    rw [hKind] at hForm
    exact absurd hForm (by decide)
  rcases hFix.inv.evalDone n hEval hPhi (fun h => h) with h | h | h
  · rw [hVal] at h
    cases h
  · rw [← h, hVal]
  · exact absurd h hResolved

/-- What is marked constant without a transfer function is a constant of the graph. -/
theorem constOf_of_const (hFix : Fixpoint g W.ops s) (hNot : ¬ Evaluable g n)
    (hVal : s.val n = .const c) : constOf g n = some c := by
  have hLive := live_of_const hFix hVal
  rw [hFix.inv.seeded n hNot, seedVal, if_pos hLive] at hVal
  split at hVal
  · rename_i hSeed
    cases hVal
    exact hSeed
  · split at hVal
    · cases hVal
    · split at hVal <;> cases hVal

theorem evalNode_unary {F : FloatOps} (hKind : (g.kind n).isUnary = true) :
    s.evalNode g F n = s.evalUnary g F n := by
  unfold evalNode
  generalize hk : g.kind n = k at hKind
  cases k <;> first | rfl | cases hKind

theorem evalNode_binary {F : FloatOps} (hKind : (g.kind n).isBinary = true) :
    s.evalNode g F n = s.evalBinary g F n := by
  unfold evalNode
  generalize hk : g.kind n = k at hKind
  cases k <;> first | rfl | cases hKind

/-- What a node with a value reads of an operand. -/
theorem operand_resolved (hBuilt : Built g) (hOk : g.structureOk = true)
    (hFix : Fixpoint g W.ops s) {slot : Nat} (hVal : s.val n = .const c)
    (hInput : g.input n slot = some x) (hArg : Evaluates g W ρ x a) :
    s.operand g n slot = s.val x ∧ s.operand g n slot ≠ .top ∧
      neverNullInput g n slot = g.isNeverNullNode x := by
  have hLive := live_of_const hFix hVal
  have hx := inputOk_of_structureOk hOk hLive hInput
  have hEq : s.operand g n slot = s.val x := by simp [operand, hInput, valAt_of_live hx]
  refine ⟨hEq, hEq ▸ operand_ne_top hBuilt hOk hFix hLive hInput hArg, ?_⟩
  simp [neverNullInput, hInput, hx]

theorem nullTest_of_ne (h : nullTest a = some b) (hNull : a ≠ .null) : b = false := by
  cases a <;> simp_all [nullTest]

theorem sameRef_self (h : sameRef a a = some b) : b = true := by
  cases a <;> simp_all [sameRef]

theorem sameRef_null_left (h : sameRef .null a = some b) (hNull : a ≠ .null) : b = false := by
  cases a <;> simp_all [sameRef]

theorem sameRef_null_right (h : sameRef a .null = some b) (hNull : a ≠ .null) : b = false := by
  cases a <;> simp_all [sameRef]

/-- Every value an execution can see agrees with the lattice, once its phis do. -/
theorem evaluates_agrees (hBuilt : Built g) (hOk : g.structureOk = true) (hFaith : Faithful g)
    (hF : Ieee W.ops) (hFix : Fixpoint g W.ops s) (hFacts : NullFacts g W ρ)
    (hPhis : PhisAgree g s ρ) (h : Evaluates g W ρ n v) :
    ∀ {c : ConstVal}, s.val n = .const c → v = c.toVal := by
  induction h with
  | @constant n v hDead hConst =>
    intro c hVal
    have hNot : ¬ Evaluable g n := by
      rw [evaluable_iff_form (live_of_const hFix hVal), valueForm_constant hConst]
      rcases constant_kind hConst with h | h | h | h | h <;> simp [h]
    have hSeed := constOf_of_const hFix hNot hVal
    exact Option.some.inj (hConst.symm.trans (constant_of_constOf hSeed))
  | @held n v hKind hHeld =>
    intro c hVal
    have hLive := live_of_const hFix hVal
    by_cases hPhi : g.kind n = .phi
    · exact hPhis n v c hLive hPhi hHeld hVal
    have hNot : ¬ Evaluable g n := by
      rw [evaluable_iff_form hLive, valueForm_held hKind]
      simp [hPhi]
    have hForm := valueForm_constant (constant_of_constOf (constOf_of_const hFix hNot hVal))
    rw [valueForm_held hKind] at hForm
    cases hForm
  | @unary n x a v hKind hInput hArg hOp ih =>
    intro c hVal
    obtain ⟨hx, hTop, -⟩ := operand_resolved hBuilt hOk hFix hVal hInput hArg
    have hEq := evalNode_eq_const hFix (by rw [valueForm_unary hKind]; decide) hVal
    rw [evalNode_unary hKind] at hEq
    have hEval := hEq (fun h => hTop (operand_of_evalUnary_top h))
    unfold evalUnary at hEval
    rw [hx] at hEval
    split at hEval
    · cases hEval
    · cases hEval
    rename_i a' hOperand
    unfold ofFold at hEval
    split at hEval
    · rename_i c' hFold
      cases hEval
      obtain rfl := ih hOperand
      exact Option.some.inj (hOp.symm.trans (evalUnaryOp_sound hF hFold))
    · cases hEval
  | @binary n x y a b v hKind hLeft hRight hArg hArg' hOp ih ih' =>
    intro c hVal
    obtain ⟨hx, hTop, -⟩ := operand_resolved hBuilt hOk hFix hVal hLeft hArg
    obtain ⟨hy, hTop', -⟩ := operand_resolved hBuilt hOk hFix hVal hRight hArg'
    have hEq := evalNode_eq_const hFix (by rw [valueForm_binary hKind]; decide) hVal
    rw [evalNode_binary hKind] at hEq
    have hEval := hEq (fun h => (operand_of_evalBinary_top h).elim hTop hTop')
    unfold evalBinary at hEval
    rw [hx, hy] at hEval
    split at hEval
    · cases hEval
    · cases hEval
    · cases hEval
    · cases hEval
    rename_i a' b' hOperand hOperand'
    unfold ofFold at hEval
    split at hEval
    · rename_i c' hFold
      cases hEval
      obtain rfl := ih hOperand
      obtain rfl := ih' hOperand'
      exact evalBinOp_sound hF hFold hOp
    · cases hEval
  | @isNull n x a b hKind hInput hArg hTest ih =>
    intro c hVal
    obtain ⟨hx, hTop, hNever⟩ := operand_resolved hBuilt hOk hFix hVal hInput hArg
    have hNode : s.evalNode g W.ops n = s.evalNullTest g n := by simp [evalNode, hKind]
    have hEq := evalNode_eq_const hFix (by rw [hKind]; decide) hVal
    rw [hNode] at hEq
    have hEval := hEq fun h => hTop (operand_of_evalNullTest_top h)
    simp only [evalNullTest, hx, hNever, hKind, if_true] at hEval
    split at hEval
    · -- The operand is the null constant.
      rename_i hNull
      cases hEval
      rw [ih hNull] at hTest
      cases hTest
      rfl
    · split at hEval
      · -- The operand is never null.
        rename_i hNever
        cases hEval
        rw [nullTest_of_ne hTest (hFacts x a hNever hArg)]
        rfl
      · split at hEval <;> cases hEval
  | @instanceOf n x a b hKind hInput hArg hTest ih =>
    intro c hVal
    obtain ⟨hx, hTop, hNever⟩ := operand_resolved hBuilt hOk hFix hVal hInput hArg
    have hNode : s.evalNode g W.ops n = s.evalNullTest g n := by simp [evalNode, hKind]
    have hEq := evalNode_eq_const hFix (by rw [hKind]; decide) hVal
    rw [hNode] at hEq
    have hEval := hEq fun h => hTop (operand_of_evalNullTest_top h)
    simp only [evalNullTest, hx, hNever, hKind,
      hFaith.instanceOf n x (live_of_const hFix hVal) hKind hInput, reduceCtorEq,
      if_false] at hEval
    split at hEval
    · rename_i hNull
      cases hEval
      rw [ih hNull] at hTest
      cases hTest
      rfl
    · split at hEval <;> cases hEval
  | @refEq n x y a d b hKind hLeft hRight hArg hArg' hTest ih ih' =>
    intro c hVal
    obtain ⟨hx, hTop, hNeverX⟩ := operand_resolved hBuilt hOk hFix hVal hLeft hArg
    obtain ⟨hy, hTop', hNeverY⟩ := operand_resolved hBuilt hOk hFix hVal hRight hArg'
    have hNode : s.evalNode g W.ops n = s.evalRefEq g n := by simp [evalNode, hKind]
    have hEq := evalNode_eq_const hFix (by rw [hKind]; decide) hVal
    rw [hNode] at hEq
    have hEval := hEq fun h => (operand_of_evalRefEq_top h).elim hTop hTop'
    simp only [evalRefEq, hx, hy, hNeverX, hNeverY] at hEval
    split at hEval
    · -- One node on both sides.
      rename_i hSame
      cases hEval
      have hxy : x = y := Option.some.inj ((hLeft.symm.trans hSame.2).trans hRight)
      subst hxy
      obtain rfl := evaluates_unique hArg hArg'
      rw [sameRef_self hTest]
      rfl
    · split at hEval
      · rename_i hNulls
        cases hEval
        rw [ih hNulls.1, ih' hNulls.2] at hTest
        cases hTest
        rfl
      · split at hEval
        · rename_i hMixed
          cases hEval
          rcases hMixed with ⟨hNull, hNever⟩ | ⟨hNull, hNever⟩
          · rw [ih hNull] at hTest
            rw [sameRef_null_left hTest (hFacts y d hNever hArg')]
            rfl
          · rw [ih' hNull] at hTest
            rw [sameRef_null_right hTest (hFacts x a hNever hArg)]
            rfl
        · split at hEval <;> cases hEval

theorem mem_ctrlUsers (hUse : g.UseDef) {slot : Nat} (hn : g.live n = true)
    (h : Consumes g n u slot) : u ∈ ctrlUsers g n := by
  obtain ⟨hLive, -, hInput, hRole⟩ := h
  have hMem : (⟨u, slot⟩ : Use) ∈ g.usesOf n :=
    (hUse n u slot (live_iff.mp hn).1 (live_iff.mp hLive).1).mpr hInput
  simp only [ctrlUsers, mem_map, mem_filter]
  refine ⟨⟨u, slot⟩, ⟨hMem, ?_⟩, rfl⟩
  simp only [hLive, hInput, beq_self_eq_true, Bool.true_and, Bool.or_eq_true, beq_iff_eq]
  exact hRole

theorem mem_switchProjections (hUse : g.UseDef) (hn : g.live n = true)
    (hk : k = .switchCase ∨ k = .switchDefault) (h : Projects g n u k) :
    u ∈ switchProjections g n := by
  obtain ⟨hLive, hKind, hInput⟩ := h
  have hMem : (⟨u, 0⟩ : Use) ∈ g.usesOf n :=
    (hUse n u 0 (live_iff.mp hn).1 (live_iff.mp hLive).1).mpr hInput
  simp only [switchProjections, mem_map, mem_filter]
  refine ⟨⟨u, 0⟩, ⟨hMem, ?_⟩, rfl⟩
  rcases hk with rfl | rfl <;> simp [hLive, hKind]

theorem projectionOf_eq (hUse : g.UseDef) (hFaith : Faithful g) (hn : g.live n = true)
    (hIf : g.kind n = .ifNode) (hk : k = .ifTrue ∨ k = .ifFalse) (h : Projects g n u k) :
    Sccp.projectionOf g n k = some u := by
  have hMem : (⟨u, 0⟩ : Use) ∈ g.usesOf n :=
    (hUse n u 0 (live_iff.mp hn).1 (live_iff.mp h.1).1).mpr h.2.2
  unfold Sccp.projectionOf
  cases hFind : (g.usesOf n).find?
      (fun w => w.slot == 0 && g.live w.user && g.kind w.user == k) with
  | none =>
    have hNot := find?_eq_none.mp hFind ⟨u, 0⟩ hMem
    simp [h.1, h.2.1] at hNot
  | some w =>
    have hw := find?_some hFind
    simp only [and_eq_true, beq_iff_eq] at hw
    obtain ⟨⟨hSlot, hLive⟩, hKind⟩ := hw
    have hInput : g.input w.user w.slot = some n :=
      (hUse n w.user w.slot (live_iff.mp hn).1 (live_iff.mp hLive).1).mp
        (mem_of_find?_eq_some hFind)
    rw [hSlot] at hInput
    have hEq := hFaith.projections n w.user u k hIf hk ⟨hLive, hKind, hInput⟩ h
    simp [hEq]

/-- Wherever control can go, the analysis passes it on. -/
theorem mem_flowTargets (hBuilt : Built g) (hOk : g.structureOk = true) (hFaith : Faithful g)
    (hF : Ieee W.ops) (hFix : Fixpoint g W.ops s) (hFacts : NullFacts g W ρ)
    (hPhis : PhisAgree g s ρ) {slot : Nat} (hn : g.live n = true) (h : Flows g W ρ n u slot) :
    u ∈ s.flowTargets g n := by
  -- The lattice value of a condition that yields `v`.
  have hCondition {c : NodeId} {v : BitVec 32} (hCond : g.input n 1 = some c)
      (hVal : Evaluates g W ρ c (.int v)) :
      s.valAt g c = .const (.i v) ∨ s.valAt g c = .bot := by
    have hc := inputOk_of_structureOk hOk hn hCond
    have hTop := operand_ne_top hBuilt hOk hFix hn hCond hVal
    rw [valAt_of_live hc]
    cases hLat : s.val c with
    | top => exact absurd hLat hTop
    | bot => exact Or.inr rfl
    | const d =>
      have hEq := evaluates_agrees hBuilt hOk hFaith hF hFix hFacts hPhis hVal hLat
      cases d <;> simp only [ConstVal.toVal, Val.int.injEq, reduceCtorEq] at hEq
      rw [hEq]
      exact Or.inl rfl
  have hUse := hBuilt.useDef
  cases h with
  | @ifTrue c v hKind hCond hVal hTaken hProj =>
    have hFirst := projectionOf_eq hUse hFaith hn hKind (Or.inl rfl) hProj
    simp only [flowTargets, hKind, hCond]
    rcases hCondition hCond hVal with hLat | hLat
    · simp only [hLat]
      rw [if_pos hTaken, hFirst]
      exact mem_singleton.mpr rfl
    · simp [hLat, hFirst]
  | @ifFalse c hKind hCond hVal hProj =>
    have hFirst := projectionOf_eq hUse hFaith hn hKind (Or.inr rfl) hProj
    simp only [flowTargets, hKind, hCond]
    rcases hCondition hCond hVal with hLat | hLat
    all_goals simp [hLat, hFirst]
  | switchCase hKind hProj =>
    simp only [flowTargets, hKind]
    exact mem_switchProjections hUse hn (Or.inl rfl) hProj
  | switchDefault hKind hProj =>
    simp only [flowTargets, hKind]
    exact mem_switchProjections hUse hn (Or.inr rfl) hProj
  | @pass c v slot hKind hCond hVal hTaken hNext =>
    have hMem := mem_ctrlUsers hUse hn hNext
    simp only [flowTargets, hKind, hCond]
    rcases hCondition hCond hVal with hLat | hLat
    · simp only [hLat]
      rw [if_neg hTaken]
      exact hMem
    · simp [hLat, hMem]
  | next hIf hSwitch hGuard hTerm hNext =>
    have hMem := mem_ctrlUsers hUse hn hNext
    unfold flowTargets
    split
    · exact absurd ‹_› hIf
    · exact absurd ‹_› hSwitch
    · exact absurd ‹_› hGuard
    all_goals first
      | exact hMem
      | (rename_i hKind
         rw [hKind] at hTerm
         cases hTerm)

theorem live_of_flows {slot : Nat} (h : Flows g W ρ n u slot) :
    g.live u = true ∧ g.input u slot = some n := by
  cases h with
  | ifTrue _ _ _ _ hProj | ifFalse _ _ _ hProj | switchCase _ hProj | switchDefault _ hProj =>
    exact ⟨hProj.1, hProj.2.2⟩
  | pass _ _ _ _ hNext | next _ _ _ _ hNext => exact ⟨hNext.1, hNext.2.2.1⟩

/-- What every point of a run satisfies. -/
structure Agrees (g : Graph) (W : World) (s : Sccp) (σ : Point) : Prop where
  live : g.live σ.ctrl = true
  exec : s.exec σ.ctrl = true
  facts : NullFacts g W σ.held
  phis : PhisAgree g s σ.held

theorem agrees_initial (hFix : Fixpoint g W.ops s) {σ : Point} (h : Initial g W σ) :
    Agrees g W s σ := by
  obtain ⟨hCtrl, hLive, hNone, hFacts⟩ := h
  refine ⟨by rw [hCtrl]; exact hLive, by rw [hCtrl]; exact hFix.inv.startExec hLive, hFacts, ?_⟩
  intro p v c hp hKind hHeld _
  rw [hNone p hp hKind] at hHeld
  cases hHeld

variable (hBuilt : Built g) (hOk : g.structureOk = true) (hFaith : Faithful g) (hF : Ieee W.ops)
  (hFix : Fixpoint g W.ops s)
include hBuilt hOk hFaith hF hFix

/-- One step of an execution keeps the agreement. -/
theorem agrees_step {σ τ : Point} (h : Agrees g W s σ) (hStep : Step g W σ τ) : Agrees g W s τ := by
  obtain ⟨slot, hFlow, hMoved, hFacts⟩ := hStep
  have hTarget := mem_flowTargets hBuilt hOk hFaith hF hFix h.facts h.phis h.live hFlow
  obtain ⟨hLive, hEdge⟩ := live_of_flows hFlow
  have hExec := hFix.inv.ctrlDone σ.ctrl τ.ctrl h.live h.exec (fun h => h) hTarget
  refine ⟨hLive, hExec, hFacts, ?_⟩
  intro p v c hp hKind hHeld hVal
  have hPhi := hMoved p v hp hKind hHeld
  by_cases hHere : g.input p 0 = some τ.ctrl
  · -- The phi was set on this step, from its operand for the entered slot.
    obtain ⟨x, hx, hArg⟩ := hPhi.1 hHere
    have hLike := regionLike_of_structureOk hOk hp hKind hHere
    rcases hFix.inv.phiDone p τ.ctrl σ.ctrl slot hp hKind (fun h => h) hHere hLive hLike
        (fun h => h) hEdge h.live h.exec (fun h => h) hTarget with hBot | ⟨x', hx', hLe⟩
    · rw [hVal] at hBot
      cases hBot
    · obtain rfl := Option.some.inj (hx.symm.trans hx')
      have hTop := operand_ne_top hBuilt hOk hFix hp hx hArg
      rw [hVal, valAt_of_live (inputOk_of_structureOk hOk hp hx), Flat.const_le] at hLe
      rcases hLe with hLe | hLe
      · exact absurd hLe hTop
      · exact evaluates_agrees hBuilt hOk hFaith hF hFix h.facts h.phis hArg hLe
  · exact h.phis p v c hp hKind (hPhi.2 hHere) hVal

theorem agrees_reached {τ : Point} (h : Reached g W τ) : Agrees g W s τ := by
  obtain ⟨σ, hInit, hRun⟩ := h
  induction hRun with
  | refl => exact agrees_initial hFix hInit
  | tail _ hStep ih => exact agrees_step hBuilt hOk hFaith hF hFix ih hStep

end

end B2Compiler.Passes
