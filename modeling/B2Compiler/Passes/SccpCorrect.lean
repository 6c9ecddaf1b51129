import B2Compiler.Passes.SccpSound

/-!
# The pass replaces nodes by their run-time values

The rewrite phase points every replaced node at a constant node that carries the
lattice value; later rewrites touch inputs and tombstone flags only, so the constant
is still there at the end.  Together with the soundness of the lattice this is the
correctness of the pass.
-/

namespace B2Compiler.Passes

open Interp List
open Ir
open Lib

section

variable {g g' : Graph} {s : Sccp} {r r' : Rewrite}

/-! ## Rewrites keep constants -/

/-- `g'` extends `g` and every node of `g` still carries the same constant. -/
def KeepsConstants (g g' : Graph) : Prop :=
  g.nodeCount ≤ g'.nodeCount ∧ ∀ m, m < g.nodeCount → (g'.node m).constant = (g.node m).constant

theorem KeepsConstants.refl (g : Graph) : KeepsConstants g g := ⟨le_refl _, fun _ _ => rfl⟩

theorem KeepsConstants.trans {g'' : Graph} (h : KeepsConstants g g')
    (h' : KeepsConstants g' g'') : KeepsConstants g g'' :=
  ⟨h.1.trans h'.1, fun m hm => (h'.2 m (lt_of_lt_of_le hm h.1)).trans (h.2 m hm)⟩

theorem keepsConstants_modify {f : Node → Node} (hf : ∀ nd, (f nd).constant = nd.constant)
    (i : Nat) (uses : List (List Use)) :
    KeepsConstants g ⟨g.nodes.modify i f, uses⟩ := by
  constructor
  · simp [Graph.nodeCount]
  intro m _
  simp only [Graph.node, getD_eq_getElem?_getD, getElem?_modify]
  cases g.nodes[m]? with
  | none => rfl
  | some nd =>
    by_cases him : i = m
    · simp [him, hf]
    · simp [him]

theorem keepsConstants_setInput (n : NodeId) (slot : Nat) (v : NodeId) :
    KeepsConstants g (g.setInput n slot v) := by
  unfold Graph.setInput
  split
  · exact .refl g
  · split
    · exact .refl g
    · apply keepsConstants_modify
      intro nd
      rfl

theorem keepsConstants_rewire (old new : NodeId) (l : List Use) : ∀ g : Graph,
    KeepsConstants g (l.foldl (fun h u =>
      if h.input u.user u.slot = some old then h.setInput u.user u.slot new else h) g) := by
  induction l with
  | nil => exact fun g => .refl g
  | cons u rest ih =>
    intro g
    rw [foldl_cons]
    refine KeepsConstants.trans ?_ (ih _)
    split
    · exact keepsConstants_setInput _ _ _
    · exact .refl g

theorem keepsConstants_replaceNode {old new : NodeId} (h : g.replaceNode old new = some g') :
    KeepsConstants g g' := by
  unfold Graph.replaceNode at h
  split at h
  · cases h
    refine (keepsConstants_rewire old new (g.usesOf old) g).trans ?_
    apply keepsConstants_modify
    intro nd
    rfl
  · cases h

theorem keepsConstants_make (nd : Node) :
    KeepsConstants g (g.make nd).1 ∧ (g.make nd).2 < (g.make nd).1.nodeCount ∧
      (g.make nd).1.node (g.make nd).2 = nd := by
  unfold Graph.make
  refine ⟨⟨?_, fun m hm => ?_⟩, ?_, ?_⟩
  · simp [Graph.nodeCount]
  · simp only [Graph.node, getD_eq_getElem?_getD]
    rw [getElem?_append_left hm]
  · simp [Graph.nodeCount]
  · simp [Graph.node, Graph.nodeCount]

/-- The constant node made for a value carries it. -/
theorem keepsConstants_makeConstNode (c : ConstVal) : KeepsConstants g (makeConstNode g c).1 ∧
      (makeConstNode g c).2 < (makeConstNode g c).1.nodeCount ∧
      ((makeConstNode g c).1.node (makeConstNode g c).2).constant = some c.toVal := by
  cases c with
  | i v =>
    obtain ⟨hKeep, hLt, hNode⟩ :=
      keepsConstants_make (g := g) { kind := .constantI, constValue := v.signExtend 64 }
    refine ⟨hKeep, hLt, ?_⟩
    simp only [makeConstNode, hNode, Node.constant, ConstVal.toVal, setWidth_signExtend]
  | l v =>
    obtain ⟨hKeep, hLt, hNode⟩ :=
      keepsConstants_make (g := g) { kind := .constantL, constValue := v }
    refine ⟨hKeep, hLt, ?_⟩
    simp only [makeConstNode, hNode, Node.constant, ConstVal.toVal]
  | f v =>
    obtain ⟨hKeep, hLt, hNode⟩ :=
      keepsConstants_make (g := g) { kind := .constantF, constValue := v.setWidth 64 }
    refine ⟨hKeep, hLt, ?_⟩
    simp [makeConstNode, hNode, Node.constant, ConstVal.toVal]
  | d v =>
    obtain ⟨hKeep, hLt, hNode⟩ :=
      keepsConstants_make (g := g) { kind := .constantD, constValue := v }
    refine ⟨hKeep, hLt, ?_⟩
    simp only [makeConstNode, hNode, Node.constant, ConstVal.toVal]
  | null =>
    obtain ⟨hKeep, hLt, hNode⟩ := keepsConstants_make (g := g) { kind := .constantNull }
    refine ⟨hKeep, hLt, ?_⟩
    simp only [makeConstNode, hNode, Node.constant, ConstVal.toVal]

/-! ## The rewrite phase -/

def Carries (g : Graph) (c : ConstVal) (id : NodeId) : Prop :=
  id < g.nodeCount ∧ (g.node id).constant = some c.toVal

theorem Carries.mono {c : ConstVal} {id : NodeId} (h : Carries g c id)
    (hKeep : KeepsConstants g g') : Carries g' c id :=
  ⟨lt_of_lt_of_le h.1 hKeep.1, (hKeep.2 id h.1).trans h.2⟩

/-- Interned nodes carry their value and replacements point at the lattice value. -/
structure RewriteOk (s : Sccp) (r : Rewrite) : Prop where
  intern : ∀ c id, (c, id) ∈ r.intern → Carries r.graph c id
  replaced : ∀ n id, (n, id) ∈ r.replaced → ∃ c, s.val n = .const c ∧ Carries r.graph c id

theorem RewriteOk.mono (h : RewriteOk s r) (hKeep : KeepsConstants r.graph r'.graph)
    (hIntern : r'.intern = r.intern) (hReplaced : r'.replaced = r.replaced) : RewriteOk s r' := by
  constructor
  · intro c id hMem
    rw [hIntern] at hMem
    exact (h.intern c id hMem).mono hKeep
  · intro n id hMem
    rw [hReplaced] at hMem
    obtain ⟨c, hVal, hCarries⟩ := h.replaced n id hMem
    exact ⟨c, hVal, hCarries.mono hKeep⟩

theorem addConst_ok (h : RewriteOk s r) (c : ConstVal) :
    RewriteOk s (r.addConst c).1 ∧ Carries (r.addConst c).1.graph c (r.addConst c).2 := by
  obtain ⟨hKeep, hLt, hConst⟩ := keepsConstants_makeConstNode (g := r.graph) c
  refine ⟨⟨fun c' id hMem => ?_, fun n id hMem => ?_⟩, hLt, hConst⟩
  · rcases mem_cons.mp hMem with hNew | hOld
    · cases hNew
      exact ⟨hLt, hConst⟩
    · exact (h.intern c' id hOld).mono hKeep
  · obtain ⟨c', hVal, hCarries⟩ := h.replaced n id hMem
    exact ⟨c', hVal, hCarries.mono hKeep⟩

theorem internConst_ok (h : RewriteOk s r) (c : ConstVal) :
    RewriteOk s (r.internConst c).1 ∧ Carries (r.internConst c).1.graph c (r.internConst c).2 := by
  unfold Rewrite.internConst
  split
  · rename_i id hLookup
    split
    · obtain ⟨l₁, l₂, hSplit, -⟩ := lookup_eq_some_iff.mp hLookup
      exact ⟨h, h.intern c id (by rw [hSplit]; simp)⟩
    · exact addConst_ok h c
  · exact addConst_ok h c

theorem replace_ok (h : RewriteOk s r) {n id : NodeId} {c : ConstVal} (hVal : s.val n = .const c)
    (hCarries : Carries r.graph c id) : RewriteOk s (r.replace n id) := by
  unfold Rewrite.replace
  split
  · exact h.mono (.refl _) rfl rfl
  split
  · exact h.mono (.refl _) rfl rfl
  rename_i graph hReplace
  have hKeep := keepsConstants_replaceNode hReplace
  refine ⟨fun c' id' hMem => (h.intern c' id' hMem).mono hKeep, fun n' id' hMem => ?_⟩
  rcases mem_append.mp hMem with hOld | hNew
  · obtain ⟨c', hVal', hCarries'⟩ := h.replaced n' id' hOld
    exact ⟨c', hVal', hCarries'.mono hKeep⟩
  · cases mem_singleton.mp hNew
    exact ⟨c, hVal, hCarries.mono hKeep⟩

theorem applyNode_ok (h : RewriteOk s r) {n : NodeId} (hRun : applyNode s r n = some r') :
    RewriteOk s r' := by
  unfold applyNode at hRun
  split at hRun
  · split at hRun
    · rename_i c hVal
      split at hRun
      · cases hRun
      split at hRun
      · cases hRun
        obtain ⟨hOk, hCarries⟩ := internConst_ok h c
        exact replace_ok hOk hVal hCarries
      · cases hRun
        exact h
    · cases hRun
      exact h
  · cases hRun
    exact h

theorem applyAll_ok (l : List NodeId) : ∀ {r r' : Rewrite}, RewriteOk s r →
    l.foldlM (applyNode s) r = some r' → RewriteOk s r' := by
  induction l with
  | nil =>
    intro r r' h hRun
    cases hRun
    exact h
  | cons n rest ih =>
    intro r r' h hRun
    rw [foldlM_cons] at hRun
    obtain ⟨t, hStep, hRest⟩ := Option.bind_eq_some_iff.mp hRun
    exact ih (applyNode_ok h hStep) hRest

/-- Every replacement of the pass is by a constant node with the lattice value. -/
theorem apply_ok {budget : Nat} (hRun : apply g s budget = some r) : RewriteOk s r := by
  refine applyAll_ok (r := { graph := g, budget := budget }) _ ⟨?_, ?_⟩ hRun
  · exact fun c id hMem => absurd hMem not_mem_nil
  · exact fun n id hMem => absurd hMem not_mem_nil

end

/-- What the pass promises of a graph: at every point of every execution, a node
marked constant that yields a value yields that constant, control is not at a node
left unmarked, and a replaced node yields the value of the constant node that took
its place. -/
def SccpSound (g : Graph) (W : World) (budget : Nat) : Prop :=
  ∀ σ, Reached g W σ → (∀ left s, Sccp.analyze g W.ops budget = some (left, s) →
      (∀ n c v, s.val n = .const c → Evaluates g W σ.held n v → v = c.toVal) ∧
      ∀ u, s.exec u = false → σ.ctrl ≠ u) ∧
    ∀ r, runSCCP W.ops g budget = some r → ∀ n id, (n, id) ∈ r.replaced →
      ∀ v, Evaluates g W σ.held n v → (r.graph.node id).constant = some v

/-- **Correctness.** On every verified graph whose class tests read no never-null node,
whose null and identity tests read none that merges null, and whose branches have one
projection of each kind, the pass keeps its promise, whatever the budget. -/
theorem sccp_sound {g : Graph} {W : World} (hBuilt : Built g) (hOk : g.structureOk = true)
    (hF : Ieee W.ops) (hFaith : Faithful g) (budget : Nat) : SccpSound g W budget := by
  intro σ hReached
  have hMarks {left : Nat} {s : Sccp} (hRun : Sccp.analyze g W.ops budget = some (left, s)) :
      ∀ n c v, s.val n = .const c → Evaluates g W σ.held n v → v = c.toVal := by
    have hFix := analyze_fixpoint hBuilt hFaith.nullTests hRun
    have hAgrees := agrees_reached hBuilt hOk hFaith hF hFix hReached
    intro n c v hVal hEval
    exact evaluates_agrees hBuilt hOk hFaith hF hFix hAgrees.facts hAgrees.phis hEval hVal
  refine ⟨fun left s hRun => ⟨hMarks hRun, fun u hu hCtrl => ?_⟩, ?_⟩
  · have hFix := analyze_fixpoint hBuilt hFaith.nullTests hRun
    have hAgrees := agrees_reached hBuilt hOk hFaith hF hFix hReached
    rw [← hCtrl, hAgrees.exec] at hu
    cases hu
  · intro r hRun n id hMem v hEval
    unfold runSCCP at hRun
    split at hRun
    · cases hRun
      cases hMem
    · rename_i budget' s hAnalyze
      obtain ⟨c, hVal, hCarries⟩ := (apply_ok hRun).replaced n id hMem
      rw [hMarks hAnalyze n c v hVal hEval]
      exact hCarries.2

/-! ## Two graphs -/

/-- The invariant of the use lists, as a check. -/
def useDefOk (g : Graph) : Bool :=
  (range g.nodeCount).all fun n =>
    ((g.usesOf n).all fun u => g.input u.user u.slot == some n) && (range g.nodeCount).all fun u =>
        ((g.node u).inputs.zipIdx).all fun p => p.1 != n || (g.usesOf n).contains ⟨u, p.2⟩

theorem useDef_of_useDefOk {g : Graph} (h : useDefOk g = true) : g.UseDef := by
  intro n u slot hn hu
  have hNode := all_eq_true.mp h n (mem_range.mpr hn)
  rw [Bool.and_eq_true] at hNode
  constructor
  · intro hMem
    exact beq_iff_eq.mp (all_eq_true.mp hNode.1 ⟨u, slot⟩ hMem)
  intro hInput
  have hUser := all_eq_true.mp hNode.2 u (mem_range.mpr hu)
  have hMem : (n, slot) ∈ (g.node u).inputs.zipIdx :=
    mk_mem_zipIdx_iff_getElem?.mpr hInput
  have hEntry := all_eq_true.mp hUser (n, slot) hMem
  simpa using hEntry

/-- Floating-point operations that satisfy the laws: comparison and truncation of the
denoted numbers, and a widening that is exact on the bounds of the integer types. -/
def sampleOps : FloatOps :=
  let widen (a : BitVec 32) : BitVec 64 :=
    if isNanF a then 0x7FF8000000000000
    else if a = 0x4F000000 then 0x41E0000000000000
    else if a = 0xCF000000 then 0xC1E0000000000000
    else if a = 0x5F000000 then 0x43E0000000000000
    else if a = 0xDF000000 then 0xC3E0000000000000
    else 0
  let less (a b : BitVec 64) : Bool :=
    !isNanD a && !isNanD b && decide (doubleVal a < doubleVal b)
  { (default : FloatOps) with
    ltD := less
    truncD := fun v => truncate (doubleVal v)
    f2d := widen
    ltF := fun a b => less (widen a) (widen b)
    truncF := fun a => truncate (doubleVal (widen a)) }

theorem sampleOps_ieee : Ieee sampleOps where
  ltD_iff a b := by simp [sampleOps, and_assoc]
  truncD_eq v _ _ _ := rfl
  nan_f2d a := by
    simp only [sampleOps]
    split
    · rename_i h
      rw [h]
      decide
    rename_i h
    rw [Bool.eq_false_iff.mpr h]
    split
    · decide
    · split
      · decide
      · split
        · decide
        · split <;> decide
  ltD_f2d a b := rfl
  truncD_f2d a := rfl
  f2d_two_pow_31 := by decide
  f2d_neg_two_pow_31 := by decide
  f2d_two_pow_63 := by decide
  f2d_neg_two_pow_63 := by decide

/-- A world in which every object passes every class test. -/
def sampleWorld : World := ⟨sampleOps, fun _ _ => true⟩

/-- `for (x = 0; x == 0; x = x + 0);` with the exit returning `x`. -/
def loopGraph : Graph where
  nodes :=
    [{ kind := .start }, { kind := .constantI }, { kind := .loopBegin, inputs := [0, 7] },
      { kind := .phi, inputs := [2, 1, 4] }, { kind := .addI, inputs := [3, 1] },
      { kind := .ifNode, inputs := [2, 3] }, { kind := .ifTrue, inputs := [5] },
      { kind := .ifFalse, inputs := [5] }, { kind := .returnNode, inputs := [6, 3] }]
  uses :=
    [[⟨2, 0⟩], [⟨3, 1⟩, ⟨4, 1⟩], [⟨3, 0⟩, ⟨5, 0⟩], [⟨4, 0⟩, ⟨5, 1⟩, ⟨8, 1⟩], [⟨3, 2⟩],
      [⟨6, 0⟩, ⟨7, 0⟩], [⟨8, 0⟩], [⟨2, 1⟩], []]

theorem loopGraph_faithful : Faithful loopGraph := by
  have hNoTest : ∀ n < 9, loopGraph.kind n ≠ .instanceOf ∧ loopGraph.kind n ≠ .isNull ∧
      loopGraph.kind n ≠ .refEq := by decide
  have hOne : ∀ u < 9, ∀ u' < 9, (loopGraph.kind u = .ifTrue ∨ loopGraph.kind u = .ifFalse) →
      loopGraph.kind u = loopGraph.kind u' → u = u' := by decide
  refine ⟨fun n x hLive hKind _ => ?_, fun n x slot hLive hKind => ?_, ?_⟩
  · exact absurd hKind (hNoTest n (live_iff.mp hLive).1).1
  · have hn := hNoTest n (live_iff.mp hLive).1
    exact absurd hKind (by simp [hn.2.1, hn.2.2])
  · intro n u u' k _ hk hu hu'
    exact hOne u (live_iff.mp hu.1).1 u' (live_iff.mp hu'.1).1 (hu.2.1 ▸ hk)
      (hu.2.1.trans hu'.2.1.symm)

/-- The loop phi is proven 0, the exit projection stays unmarked, and the promise is
kept. -/
theorem loopGraph_sound : SccpSound loopGraph sampleWorld 100 ∧
      ((Sccp.analyze loopGraph sampleOps 100).map fun p => (p.2.val 3, p.2.exec 6)) =
        some (.const (.i 0), false) :=
  ⟨sccp_sound ⟨by decide, useDef_of_useDefOk (by decide +kernel)⟩ (by decide +kernel)
    sampleOps_ieee loopGraph_faithful 100, by decide +kernel⟩

def newInstanceGraph : Graph where
  nodes :=
    [{ kind := .start }, { kind := .new, inputs := [0], payload := 3 },
      { kind := .instanceOf, inputs := [1], payload := 3 },
      { kind := .returnNode, inputs := [1, 2] }]
  uses := [[⟨1, 0⟩], [⟨2, 0⟩, ⟨3, 0⟩], [⟨3, 1⟩], []]

theorem newInstance_held {ρ : Held} {n : NodeId} {v : Val}
    (hNever : newInstanceGraph.isNeverNullNode n = true)
    (h : Evaluates newInstanceGraph sampleWorld ρ n v) : ρ 1 = some v := by
  have hOne : n = 1 := by
    by_cases hn : n < 4
    · have hAll : ∀ m < 4, newInstanceGraph.isNeverNullNode m = true → m = 1 := by decide
      exact hAll n hn hNever
    have hNode : newInstanceGraph.node n = { kind := .start } := by
      have hNone : newInstanceGraph.nodes[n]? = none :=
        getElem?_eq_none (not_lt.mp hn)
      rw [Graph.node, getD_eq_getElem?_getD, hNone]
      rfl
    simp [Graph.isNeverNullNode, Graph.isDead, Graph.kind, hNode] at hNever
  subst hOne
  cases h with
  | constant _ hConst => cases hConst
  | held _ hHeld => exact hHeld
  | unary hKind | binary hKind | isNull hKind | instanceOf hKind | refEq hKind => cases hKind

/-- The class test of a fresh object is folded to 0, whatever the classes are. -/
theorem not_sccpSound_newInstance :
    (Built newInstanceGraph ∧ newInstanceGraph.structureOk = true ∧ Ieee sampleWorld.ops) ∧
      ¬ SccpSound newInstanceGraph sampleWorld 100 := by
  refine ⟨⟨⟨by decide, useDef_of_useDefOk (by decide +kernel)⟩, by decide +kernel,
    sampleOps_ieee⟩, fun hSound => ?_⟩
  -- Control steps from the start node to the allocation, which yields object 7.
  let before : Point := ⟨0, fun _ => none⟩
  let after : Point := ⟨1, fun n => if n = 1 then some (.ref 7) else none⟩
  have hNoPhi : ∀ p, newInstanceGraph.live p = true → newInstanceGraph.kind p ≠ .phi := by
    intro p hp
    have hAll : ∀ m < 4, newInstanceGraph.kind m ≠ .phi := by decide
    exact hAll p (live_iff.mp hp).1
  have hInit : Initial newInstanceGraph sampleWorld before := by
    refine ⟨rfl, by decide, fun p _ _ => rfl, fun n v hNever hEval => ?_⟩
    cases newInstance_held hNever hEval
  have hStep : Step newInstanceGraph sampleWorld before after := by
    refine ⟨0, ?_, fun p v hp hKind => absurd hKind (hNoPhi p hp), fun n v hNever hEval => ?_⟩
    · exact .next (by decide) (by decide) (by decide) (by decide) (by unfold Consumes; decide)
    · cases newInstance_held hNever hEval
      exact fun h => by cases h
  have hReached : Reached newInstanceGraph sampleWorld after :=
    ⟨before, hInit, Relation.ReflTransGen.single hStep⟩
  -- There the class test yields 1, but the pass has put a 0 in its place.
  have hTest : Evaluates newInstanceGraph sampleWorld after.held 2 (ofBool true) :=
    .instanceOf (x := 1) (a := .ref 7) (by decide) (by decide) (.held (by decide) rfl) rfl
  have hMarked : (Sccp.analyze newInstanceGraph sampleOps 100).map (fun p => p.2.val 2) =
      some (.const (.i 0)) := by decide +kernel
  obtain ⟨⟨left, s⟩, hRun, hVal⟩ := Option.map_eq_some_iff.mp hMarked
  have hZero := ((hSound after hReached).1 left s hRun).1 2 (.i 0) _ hVal hTest
  exact absurd hZero (by decide)

end B2Compiler.Passes
