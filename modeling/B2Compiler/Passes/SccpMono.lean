import B2Compiler.Passes.Sccp

/-!
# The transfer functions of the constant propagation are monotone

The analysis only descends: lattice values fall and executability marks are set.
The transfer functions descend with their operands, provided no null test and no
identity test reads a never-null node that can also merge the null constant; on such
a node the source would answer 1 while the value is null and 0 afterwards, which is
no descent.
-/

namespace B2Compiler.Passes

open Interp Sccp
open Ir
open Lib

section

variable (g : Graph)

/-- Live nodes with a transfer function. -/
def Evaluable (n : NodeId) : Prop :=
  g.live n = true ∧ (isEvalK (g.kind n) || g.kind n == .phi) = true

/-- The null constant reaches the node through phis alone. -/
inductive MergesNull : NodeId → Prop
  | const {n : NodeId} (hKind : g.kind n = .constantNull) : MergesNull n
  | phi {n v : NodeId} {slot : Nat} (hKind : g.kind n = .phi)
      (hInput : g.input n (slot + 1) = some v) (hMerge : MergesNull v) : MergesNull n

/-- No null test or identity test reads a never-null node that merges null. -/
def NullConsistent : Prop :=
  ∀ n x slot, g.live n = true → (g.kind n = .isNull ∨ g.kind n = .refEq) →
    g.input n slot = some x → g.isNeverNullNode x = true → ¬ MergesNull g x

/-- What the graph's constructor and primitives maintain: node 0 is the start node and
use lists match the edges. -/
structure Built : Prop where
  startKind : g.kind Graph.startNode = .start
  useDef : g.UseDef

end

/-- `s'` lies below `s`: values fell, marks were added. -/
structure Descends (s s' : Sccp) : Prop where
  val : ∀ n, s'.val n ≤ s.val n
  exec : ∀ n, s.exec n = true → s'.exec n = true

section

variable {g : Graph} {F : FloatOps} {s s' : Sccp}

theorem Descends.valAt (h : Descends s s') (n : NodeId) : s'.valAt g n ≤ s.valAt g n := by
  unfold Sccp.valAt
  split
  · exact h.val n
  · exact le_refl _

theorem Descends.operand (h : Descends s s') (n : NodeId) (slot : Nat) :
    s'.operand g n slot ≤ s.operand g n slot := by
  unfold Sccp.operand
  split
  · exact le_refl _
  · exact h.valAt _

/-! ## The meet of a phi -/

theorem phiMeet_le_acc (n : NodeId) (edges : List (NodeId × Nat)) :
    ∀ acc, s.phiMeet g n acc edges ≤ acc := by
  induction edges with
  | nil => exact fun acc => le_refl acc
  | cons e rest ih =>
    intro acc
    unfold phiMeet
    split
    · split
      · exact Flat.bot_le _
      · exact (ih _).trans (Flat.meet_le_left _ _)
    · exact ih acc

/-- The meet lies below the operand of every executable edge. -/
theorem phiMeet_le_edge (n : NodeId) {edges : List (NodeId × Nat)} {pred : NodeId} {j : Nat}
    (hMem : (pred, j) ∈ edges) (hLive : g.live pred = true) (hExec : s.exec pred = true) :
    ∀ acc, s.phiMeet g n acc edges = .bot ∨
      ∃ v, g.input n (j + 1) = some v ∧ s.phiMeet g n acc edges ≤ s.valAt g v := by
  induction edges with
  | nil => cases hMem
  | cons e rest ih =>
    intro acc
    rcases List.mem_cons.mp hMem with rfl | hRest
    · simp only [phiMeet, hLive, hExec, Bool.and_self, if_true]
      cases hInput : g.input n (j + 1) with
      | none => exact Or.inl rfl
      | some v => exact Or.inr ⟨v, rfl, (phiMeet_le_acc n rest _).trans (Flat.meet_le_right _ _)⟩
    · unfold phiMeet
      split
      · split
        · exact Or.inl rfl
        · exact ih hRest _
      · exact ih hRest acc

theorem phiMeet_mono (h : Descends s s') (n : NodeId) (edges : List (NodeId × Nat)) :
    ∀ acc acc', acc' ≤ acc → s'.phiMeet g n acc' edges ≤ s.phiMeet g n acc edges := by
  induction edges with
  | nil => exact fun acc acc' hAcc => hAcc
  | cons e rest ih =>
    obtain ⟨pred, j⟩ := e
    intro acc acc' hAcc
    simp only [phiMeet]
    by_cases hOld : (g.live pred && s.exec pred) = true
    · -- Executable before, so executable now.
      have hNew : (g.live pred && s'.exec pred) = true := by
        rw [Bool.and_eq_true] at hOld ⊢
        exact ⟨hOld.1, h.exec pred hOld.2⟩
      rw [if_pos hOld, if_pos hNew]
      cases g.input n (j + 1) with
      | none => exact le_refl _
      | some v => exact ih _ _ (Flat.meet_mono hAcc (h.valAt v))
    · rw [if_neg hOld]
      by_cases hNew : (g.live pred && s'.exec pred) = true
      · rw [if_pos hNew]
        cases g.input n (j + 1) with
        | none => exact Flat.bot_le _
        | some v => exact ih _ _ ((Flat.meet_le_left _ _).trans hAcc)
      · rw [if_neg hNew]
        exact ih acc acc' hAcc

variable {n : NodeId}

/-- A constant that survives the meet came in with the accumulator or on an edge. -/
theorem eq_const_of_phiMeet {c : ConstVal} {edges : List (NodeId × Nat)} :
    ∀ {acc}, s.phiMeet g n acc edges = .const c →
      acc = .const c ∨ ∃ j v, g.input n (j + 1) = some v ∧ s.valAt g v = .const c := by
  induction edges with
  | nil => exact fun h => Or.inl h
  | cons e rest ih =>
    intro acc h
    unfold phiMeet at h
    split at h
    · split at h
      · cases h
      rename_i j v hInput
      rcases ih h with hAcc | hEdge
      · rcases Flat.eq_const_of_meet hAcc with hOld | hVal
        · exact Or.inl hOld
        · exact Or.inr ⟨_, v, hInput, hVal⟩
      · exact Or.inr hEdge
    · exact ih h

theorem evalPhi_le_edge {r pred : NodeId} {j : Nat} (hRegion : g.input n 0 = some r)
    (hLive : g.live r = true) (hKind : isRegionLikeK (g.kind r) = true) (hExec : s.exec r = true)
    (hEdge : g.input r j = some pred) (hPred : g.live pred = true) (hFlow : s.exec pred = true) :
    s.evalPhi g n = .bot ∨ ∃ v, g.input n (j + 1) = some v ∧ s.evalPhi g n ≤ s.valAt g v := by
  have hMem : (pred, j) ∈ (g.node r).inputs.zipIdx := List.mk_mem_zipIdx_iff_getElem?.mpr hEdge
  simp only [evalPhi, hRegion, hLive, hKind, hExec, Bool.and_self, if_true]
  exact phiMeet_le_edge n hMem hPred hFlow .top

theorem evalPhi_mono (h : Descends s s') (n : NodeId) : s'.evalPhi g n ≤ s.evalPhi g n := by
  unfold evalPhi
  cases g.input n 0 with
  | none => exact le_refl _
  | some r =>
    dsimp only
    split
    · by_cases hOld : s.exec r = true
      · rw [if_pos hOld, if_pos (h.exec r hOld)]
        exact phiMeet_mono h n _ _ _ (le_refl _)
      · rw [if_neg hOld]
        exact Flat.le_top _
    · exact le_refl _

/-- Only nodes that merge the null constant carry it. -/
def NullSourced (g : Graph) (s : Sccp) : Prop := ∀ n, s.val n = .const .null → MergesNull g n

theorem NullSourced.valAt (h : NullSourced g s) (hVal : s.valAt g n = .const .null) :
    MergesNull g n := by
  unfold Sccp.valAt at hVal
  split at hVal
  · exact h n hVal
  · cases hVal

theorem evalUnaryOp_ne_null {k : NodeKind} {a : ConstVal} : evalUnaryOp F k a ≠ some .null := by
  intro h
  unfold evalUnaryOp at h
  split at h <;> simp at h

theorem evalBinOp_ne_null {k : NodeKind} {a b : ConstVal} : evalBinOp F k a b ≠ some .null := by
  intro h
  unfold evalBinOp at h
  split at h
  case h_1 => simp at h
  case h_2 =>
    obtain ⟨r, -, hr⟩ := Option.map_eq_some_iff.mp h
    split at hr <;> cases hr
  case h_5 => cases h
  all_goals
    split at h
    · cases h
    · split at h
      · cases h
      · split at h <;> cases h

theorem mergesNull_of_evalNode (h : NullSourced g s) (hVal : s.evalNode g F n = .const .null) :
    MergesNull g n := by
  unfold evalNode at hVal
  dsimp only at hVal
  split at hVal
  · rename_i hKind
    unfold evalPhi at hVal
    split at hVal
    · cases hVal
    split at hVal
    · split at hVal
      · rcases eq_const_of_phiMeet hVal with hTop | ⟨j, v, hInput, hNull⟩
        · cases hTop
        · exact .phi hKind hInput (h.valAt hNull)
      · cases hVal
    · cases hVal
  · split at hVal
    · unfold evalNullTest at hVal
      dsimp only at hVal
      repeat' split at hVal
      all_goals cases hVal
    · split at hVal
      · unfold evalRefEq at hVal
        dsimp only at hVal
        repeat' split at hVal
        all_goals cases hVal
      · split at hVal
        · unfold evalUnary at hVal
          split at hVal
          · cases hVal
          · cases hVal
          unfold ofFold at hVal
          split at hVal
          · rename_i hFold
            cases hVal
            exact absurd hFold evalUnaryOp_ne_null
          · cases hVal
        · unfold evalBinary at hVal
          split at hVal
          all_goals first
            | cases hVal
            | unfold ofFold at hVal
          split at hVal
          · rename_i hFold
            cases hVal
            exact absurd hFold evalBinOp_ne_null
          · cases hVal

/-! ## The other transfer functions are monotone -/

theorem evalUnary_mono (h : Descends s s') (n : NodeId) :
    s'.evalUnary g F n ≤ s.evalUnary g F n := by
  unfold evalUnary
  rcases h.operand (g := g) n 0 with hOp | hOp | hOp
  · rw [hOp]
    exact Flat.bot_le _
  · rw [hOp]
    exact Flat.le_top _
  · rw [hOp]

theorem evalBinary_mono (h : Descends s s') (n : NodeId) :
    s'.evalBinary g F n ≤ s.evalBinary g F n := by
  unfold evalBinary
  have hLeft := h.operand (g := g) n 0
  have hRight := h.operand (g := g) n 1
  generalize s.operand g n 0 = a at hLeft ⊢
  generalize s.operand g n 1 = b at hRight ⊢
  generalize s'.operand g n 0 = a' at hLeft ⊢
  generalize s'.operand g n 1 = b' at hRight ⊢
  rcases hLeft with rfl | rfl | rfl
  · cases b' <;> exact Flat.bot_le _
  · rcases hRight with rfl | rfl | rfl
    · cases a' <;> exact Flat.bot_le _
    · exact Flat.le_top _
    · cases b' with
      | bot => cases a' <;> exact Flat.bot_le _
      | top | const c => exact Flat.le_top _
  · rcases hRight with rfl | rfl | rfl
    · cases a' <;> exact Flat.bot_le _
    · cases a' with
      | bot => exact le_of_eq (by cases b' <;> rfl)
      | top | const c => exact Flat.le_top _
    · exact le_refl _

theorem operand_ne_null (hNull : NullConsistent g) (h : NullSourced g s) {slot : Nat}
    (hLive : g.live n = true) (hKind : g.kind n = .isNull ∨ g.kind n = .refEq)
    (hNever : neverNullInput g n slot = true) : s.operand g n slot ≠ .const .null := by
  intro hVal
  unfold neverNullInput at hNever
  unfold operand at hVal
  cases hInput : g.input n slot with
  | none => simp [hInput] at hNever
  | some x =>
    simp only [hInput, Bool.and_eq_true] at hNever hVal
    exact hNull n x slot hLive hKind hInput hNever.2 (h.valAt hVal)

theorem evalNullTest_mono (hNull : NullConsistent g) (hSrc : NullSourced g s)
    (hSrc' : NullSourced g s') (h : Descends s s') (hLive : g.live n = true)
    (hKind : g.kind n = .isNull ∨ g.kind n = .instanceOf) :
    s'.evalNullTest g n ≤ s.evalNullTest g n := by
  unfold evalNullTest
  have hOp := h.operand (g := g) n 0
  by_cases hNever : neverNullInput g n 0 = true
  · rcases hKind with hKind | hKind
    · have hOld := operand_ne_null hNull hSrc hLive (Or.inl hKind) hNever
      have hNew := operand_ne_null hNull hSrc' hLive (Or.inl hKind) hNever
      simp [hOld, hNew, hNever]
    · -- The class test answers 0 for null and for a never-null operand alike.
      simp [hKind, hNever]
  · simp only [hNever]
    rcases hOp with hOp | hOp | hOp
    · simp [hOp, Flat.bot_le]
    · simp [hOp, Flat.le_top]
    · rw [hOp]

/-- A lower bound of the identity test that does descend with its operands.  The
source waits while one operand is unresolved even when the other is no constant, and
that is the one place where its answer can rise. -/
def refEqFloor (g : Graph) (s : Sccp) (n : NodeId) : Flat ConstVal :=
  let a := s.operand g n 0
  let b := s.operand g n 1
  if s.evalRefEq g n = .top ∧ (a = .bot ∨ b = .bot) then
    if (a = .bot ∧ neverNullInput g n 0) ∨ (b = .bot ∧ neverNullInput g n 1)
    then .const (.i 0)
    else .bot
  else s.evalRefEq g n

theorem refEqFloor_eq_or (g : Graph) (s : Sccp) (n : NodeId) :
    refEqFloor g s n = s.evalRefEq g n ∨ s.evalRefEq g n = .top := by
  unfold refEqFloor
  dsimp only
  split
  · rename_i h
    exact Or.inr h.1
  · exact Or.inl rfl

theorem refEqFloor_mono (hNull : NullConsistent g) (hSrc : NullSourced g s)
    (hSrc' : NullSourced g s') (h : Descends s s') (hLive : g.live n = true)
    (hKind : g.kind n = .refEq) : refEqFloor g s' n ≤ refEqFloor g s n := by
  have hOld (slot : Nat) (hNever : neverNullInput g n slot = true) :=
    operand_ne_null hNull hSrc hLive (Or.inr hKind) hNever
  have hNew (slot : Nat) (hNever : neverNullInput g n slot = true) :=
    operand_ne_null hNull hSrc' hLive (Or.inr hKind) hNever
  have hOld0 := hOld 0
  have hOld1 := hOld 1
  have hNew0 := hNew 0
  have hNew1 := hNew 1
  have hLeft := h.operand (g := g) n 0
  have hRight := h.operand (g := g) n 1
  unfold refEqFloor evalRefEq
  generalize s.operand g n 0 = a at *
  generalize s.operand g n 1 = b at *
  generalize s'.operand g n 0 = a' at *
  generalize s'.operand g n 1 = b' at *
  generalize neverNullInput g n 0 = p at *
  generalize neverNullInput g n 1 = q at *
  by_cases hSame : (g.input n 0).isSome = true ∧ g.input n 0 = g.input n 1
  · simp only [if_pos hSame]
    simp
  · simp only [if_neg hSame]
    rw [Flat.le_def] at hLeft hRight ⊢
    clear hOld hNew
    grind

/-- What a node's transfer function can still fall to. -/
def evalFloor (g : Graph) (F : FloatOps) (s : Sccp) (n : NodeId) : Flat ConstVal :=
  if g.kind n = .refEq then refEqFloor g s n else s.evalNode g F n

theorem evalFloor_eq_or (g : Graph) (F : FloatOps) (s : Sccp) (n : NodeId) :
    evalFloor g F s n = s.evalNode g F n ∨ s.evalNode g F n = .top := by
  unfold evalFloor
  split
  · rename_i hKind
    simp only [evalNode, hKind, reduceCtorEq, or_self, if_false, if_true]
    exact refEqFloor_eq_or g s n
  · exact Or.inl rfl

theorem evalFloor_le (g : Graph) (F : FloatOps) (s : Sccp) (n : NodeId) :
    evalFloor g F s n ≤ s.evalNode g F n := by
  rcases evalFloor_eq_or g F s n with h | h
  · exact le_of_eq h
  · rw [h]
    exact Flat.le_top _

theorem evalFloor_mono (hNull : NullConsistent g) (hSrc : NullSourced g s)
    (hSrc' : NullSourced g s') (h : Descends s s') (hLive : g.live n = true) :
    evalFloor g F s' n ≤ evalFloor g F s n := by
  unfold evalFloor
  by_cases hRef : g.kind n = .refEq
  · rw [if_pos hRef, if_pos hRef]
    exact refEqFloor_mono hNull hSrc hSrc' h hLive hRef
  rw [if_neg hRef, if_neg hRef]
  unfold evalNode
  dsimp only
  rw [if_neg hRef, if_neg hRef]
  split
  · exact evalPhi_mono h n
  split
  · rename_i hKind
    exact evalNullTest_mono hNull hSrc hSrc' h hLive hKind
  · split
    · exact evalUnary_mono h n
    · exact evalBinary_mono h n

/-- Two states that agree on what `n` reads give it the same value. -/
theorem evalNode_congr (hPhi : g.kind n ≠ .phi)
    (hAgree : ∀ slot v, g.input n slot = some v → s'.val v = s.val v) :
    s'.evalNode g F n = s.evalNode g F n := by
  have hOp (slot : Nat) : s'.operand g n slot = s.operand g n slot := by
    unfold operand
    cases hInput : g.input n slot with
    | none => rfl
    | some v => simp only [valAt, hAgree slot v hInput]
  unfold evalNode evalNullTest evalRefEq evalUnary evalBinary
  simp only [hPhi, if_false, hOp]

/-- The work lists play no part in a transfer function. -/
theorem evalNode_eq (hVal : s'.val = s.val) (hExec : s'.exec = s.exec) (n : NodeId) :
    s'.evalNode g F n = s.evalNode g F n := by
  by_cases hPhi : g.kind n = .phi
  · have hDown : Descends s s' :=
      ⟨fun m => le_of_eq (by rw [hVal]), fun m h => by rw [hExec]; exact h⟩
    have hUp : Descends s' s :=
      ⟨fun m => le_of_eq (by rw [hVal]), fun m h => by rw [← hExec]; exact h⟩
    simp only [evalNode, hPhi, if_true]
    exact le_antisymm (evalPhi_mono hDown n) (evalPhi_mono hUp n)
  · exact evalNode_congr hPhi fun slot v _ => by rw [hVal]

theorem evalFloor_eq (hVal : s'.val = s.val) (hExec : s'.exec = s.exec) (n : NodeId) :
    evalFloor g F s' n = evalFloor g F s n := by
  have hOp (slot : Nat) : s'.operand g n slot = s.operand g n slot := by
    simp only [operand, valAt, hVal]
  unfold evalFloor refEqFloor evalRefEq
  simp only [hOp, evalNode_eq hVal hExec]

theorem operand_of_evalUnary_top (h : s.evalUnary g F n = .top) : s.operand g n 0 = .top := by
  unfold evalUnary at h
  cases hOp : s.operand g n 0 with
  | top => rfl
  | bot => simp [hOp] at h
  | const a =>
    simp only [hOp, ofFold] at h
    split at h <;> cases h

theorem operand_of_evalBinary_top (h : s.evalBinary g F n = .top) :
    s.operand g n 0 = .top ∨ s.operand g n 1 = .top := by
  unfold evalBinary at h
  cases hLeft : s.operand g n 0 with
  | top => exact Or.inl rfl
  | bot => simp [hLeft] at h
  | const a =>
    cases hRight : s.operand g n 1 with
    | top => exact Or.inr rfl
    | bot => simp [hLeft, hRight] at h
    | const b =>
      simp only [hLeft, hRight, ofFold] at h
      split at h <;> cases h

theorem operand_of_evalNullTest_top (h : s.evalNullTest g n = .top) : s.operand g n 0 = .top := by
  unfold evalNullTest at h
  dsimp only at h
  split at h
  · cases h
  · split at h
    · cases h
    · split at h
      · assumption
      · cases h

theorem operand_of_evalRefEq_top (h : s.evalRefEq g n = .top) :
    s.operand g n 0 = .top ∨ s.operand g n 1 = .top := by
  unfold evalRefEq at h
  dsimp only at h
  split at h
  · cases h
  split at h
  · cases h
  · split at h
    · cases h
    · split at h
      · assumption
      · cases h

end

end B2Compiler.Passes
