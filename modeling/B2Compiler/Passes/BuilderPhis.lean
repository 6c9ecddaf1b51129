import B2Compiler.Ir.QuietSteps
import B2Compiler.Ir.TrivialPhi

/-!
# Removal of trivial phis

The last phase of the graph builder visits the nodes in order, replaces every phi that
has one operand beside itself by that operand, and starts over until a round changes
nothing.  Each replacement is a rewrite of `Ir.Rewriting`, so the values survive the
whole phase, and each takes one phi away, so the bound on the rounds is never reached.
-/

namespace B2Compiler.Passes.GraphBuilder

open Ir List Nat
open Ir.Store

/-! ## The phase -/

/-- The scan of the value inputs of the phi `n`: whether it is trivial, and its candidate. -/
def phiCandidate (n : NodeId) : List NodeId → NodeId → Bool × NodeId
  | [], candidate => (true, candidate)
  | y :: ys, candidate =>
    if y = n then phiCandidate n ys candidate
    else if candidate = kInvalidNodeId then phiCandidate n ys y
    else if y ≠ candidate then (false, candidate)
    else phiCandidate n ys candidate

theorem phiCandidate_cons (n y candidate : NodeId) (ys : List NodeId) :
    phiCandidate n (y :: ys) candidate =
      if y = n then phiCandidate n ys candidate
      else if candidate = kInvalidNodeId then phiCandidate n ys y
      else if y ≠ candidate then (false, candidate)
      else phiCandidate n ys candidate := rfl

/-- One node of a round; the flag tells whether the round has changed anything. -/
def visitPhi (s : Store × Bool) (n : NodeId) : Store × Bool :=
  let g := s.1
  let nd := g.node n
  if nd.isDead = true ∨ nd.kind ≠ .phi ∨ nd.numInputs < 2 then s
  else
    let (trivial, candidate) := phiCandidate n ((g.inputs n).drop 1) kInvalidNodeId
    if trivial = true ∧ candidate ≠ kInvalidNodeId ∧ (g.node candidate).isDead = false then
      ((g.replaceNode n candidate).1, true)
    else s

/-- One round over all nodes; replacements make no nodes. -/
def phiRound (g : Store) : Store × Bool :=
  (range g.nodeCount).foldl visitPhi (g, false)

/-- Rounds until one changes nothing, a bounded number of them. -/
def phiRounds : Nat → Store → Store
  | 0, g => g
  | rounds + 1, g =>
    let (g', changed) := phiRound g
    if changed then phiRounds rounds g' else g'

def removeTrivialPhis (g : Store) : Store := phiRounds (g.nodeCount + 2) g

variable {edge : NodeId → Nat → NodeId → Prop} {g : Store}

/-- What the builder keeps true of its graph: sound slices and use lists, a closed live
part in single assignment form with the given edges of control, as many phi operands as
the merges have predecessors, and ids that fit their type. -/
structure UnderConstruction (edge : NodeId → Nat → NodeId → Prop) (g : Store) : Prop where
  ok : g.Ok
  uses : g.UseDef
  wired : g.Wired edge
  arity : g.PhiArity
  start : (g.node Graph.startNode).isDead = false
  count : g.nodes.length ≤ kInvalidNodeId

/-- One step of the phase: the trivial phi `p` gives way to its operand `x`, which has the
value of `p` wherever `p` has one. -/
structure Collapse (edge : NodeId → Nat → NodeId → Prop) (g g' : Store) (p x : NodeId) :
    Prop where
  trivial : g.TrivialPhi p x
  same : ∀ W fuel path v, g.KnownAt edge path p → g.eval W fuel path p = some (.val v) →
    g.eval W fuel path x = some (.val v)
  replaced : g.Replaced g' p x
  kept : UnderConstruction edge g'

/-- A sequence of such steps, with the node that stands for each node in the end. -/
inductive Collapses (edge : NodeId → Nat → NodeId → Prop) :
    Store → Store → (NodeId → NodeId) → Prop
  | done (g : Store) : Collapses edge g g id
  | step {g g' g'' : Store} {p x : NodeId} {σ : NodeId → NodeId}
      (hStep : Collapse edge g g' p x) (hRest : Collapses edge g' g'' σ) :
      Collapses edge g g'' (σ ∘ redirect p x)

theorem Collapses.trans {g' g'' : Store} {σ τ : NodeId → NodeId}
    (h : Collapses edge g g' σ) (h' : Collapses edge g' g'' τ) :
    Collapses edge g g'' (τ ∘ σ) := by
  induction h with
  | done g => exact h'
  | step hStep _ ih => exact .step hStep (ih h')

theorem phiCandidate_of_found {n c : NodeId} (hc : c ≠ kInvalidNodeId) (ys : List NodeId) :
    phiCandidate n ys c = (true, c) ∨ (phiCandidate n ys c).1 = false := by
  induction ys with
  | nil => exact Or.inl rfl
  | cons y ys ih =>
    rw [phiCandidate_cons, if_neg hc]
    split_ifs
    · exact ih
    · exact Or.inr rfl
    · exact ih

theorem phiCandidate_of_found_iff {n c : NodeId} (hc : c ≠ kInvalidNodeId) (ys : List NodeId) :
    (phiCandidate n ys c).1 = true ↔ ∀ y ∈ ys, y = n ∨ y = c := by
  induction ys with
  | nil => simp [phiCandidate]
  | cons y ys ih =>
    rw [phiCandidate_cons, if_neg hc, forall_mem_cons]
    split_ifs with hSelf hOther
    · rw [ih]
      exact ⟨fun h => ⟨Or.inl hSelf, h⟩, fun h => h.2⟩
    · simp [hSelf, hOther]
    · rw [ih]
      exact ⟨fun h => ⟨Or.inr (not_not.mp hOther), h⟩, fun h => h.2⟩

/-- The scan finds the one operand beside the phi itself. -/
theorem phiCandidate_eq_iff {n x : NodeId} {ys : List NodeId}
    (hValid : ∀ y ∈ ys, y ≠ kInvalidNodeId) :
    (phiCandidate n ys kInvalidNodeId = (true, x) ∧ x ≠ kInvalidNodeId) ↔
      x ≠ n ∧ x ∈ ys ∧ ∀ y ∈ ys, y = n ∨ y = x := by
  induction ys with
  | nil =>
    constructor
    · rintro ⟨hEq, hx⟩
      cases hEq
      exact absurd rfl hx
    · rintro ⟨-, hMem, -⟩
      cases hMem
  | cons y ys ih =>
    obtain ⟨hy, hRest⟩ := forall_mem_cons.mp hValid
    rw [phiCandidate_cons, if_pos (rfl : kInvalidNodeId = kInvalidNodeId)]
    split_ifs with hSelf
    · rw [ih hRest]
      grind
    constructor
    · rintro ⟨hEq, hx⟩
      have hOnly : ∀ z ∈ ys, z = n ∨ z = y := by
        rw [← phiCandidate_of_found_iff hy, hEq]
      rcases phiCandidate_of_found (n := n) hy ys with hFound | hNot
      · rw [hFound] at hEq
        cases hEq
        exact ⟨hSelf, mem_cons_self, forall_mem_cons.mpr ⟨Or.inr rfl, hOnly⟩⟩
      · rw [hEq] at hNot
        cases hNot
    · rintro ⟨hx, hMem, hOnly⟩
      obtain ⟨hHead, hTail⟩ := forall_mem_cons.mp hOnly
      have hyx : y = x := hHead.resolve_left hSelf
      subst hyx
      refine ⟨?_, hy⟩
      rcases phiCandidate_of_found (n := n) hy ys with hFound | hNot
      · exact hFound
      · rw [(phiCandidate_of_found_iff hy ys).mpr hTail] at hNot
        cases hNot

/-! ## One visit -/

section

variable (h : UnderConstruction edge g)
include h

theorem UnderConstruction.valid {n y : NodeId} (hMem : y ∈ g.inputs n) : y ≠ kInvalidNodeId := by
  obtain ⟨i, hi, hEq⟩ := mem_iff_getElem.mp hMem
  have hLt : y < g.nodes.length := h.uses.closed n i y (by rw [getElem?_eq_getElem hi, hEq])
  exact Nat.ne_of_lt (Nat.lt_of_lt_of_le hLt h.count)

theorem UnderConstruction.operand_alive {p x : NodeId}
    (hTriv : g.TrivialPhi p x) : x < g.nodes.length ∧ (g.node x).isDead = false := by
  rcases hTriv.operand_live h.wired with hStart | hAlive
  · rw [hStart]
    exact ⟨h.wired.start.1, h.start⟩
  · exact hAlive

theorem UnderConstruction.phi_alive {p x : NodeId}
    (hTriv : g.TrivialPhi p x) : p < g.nodes.length ∧ (g.node p).isDead = false := by
  rcases hTriv.live with hStart | hAlive
  · have hKind := hTriv.kind
    rw [hStart, h.wired.start.2] at hKind
    cases hKind
  · exact hAlive

theorem visitPhi_cases (changed : Bool) (n : NodeId) :
    (∃ x, g.TrivialPhi n x ∧ visitPhi (g, changed) n = ((g.replaceNode n x).1, true)) ∨
      ((∀ x, ¬ g.TrivialPhi n x) ∧ visitPhi (g, changed) n = (g, changed)) := by
  have hLen := length_inputs h.ok n
  by_cases hSkip : (g.node n).isDead = true ∨ (g.node n).kind ≠ .phi ∨ (g.node n).numInputs < 2
  · right
    refine ⟨?_, by simp only [visitPhi, hSkip, if_true]⟩
    intro x hTriv
    rcases hSkip with hDead | hKind | hShort
    · rw [(h.phi_alive hTriv).2] at hDead
      cases hDead
    · exact hKind hTriv.kind
    · have hMem := length_pos_of_mem hTriv.mem
      rw [length_drop, hLen, Store.numInputs] at hMem
      omega
  · have hAlive : (g.node n).isDead = false := by
      simpa using fun hDead => hSkip (Or.inl hDead)
    have hKind : (g.node n).kind = .phi := by
      by_contra hKind
      exact hSkip (Or.inr (Or.inl hKind))
    have hRange : n < g.nodes.length := by
      by_contra hOut
      have hDefault : g.node n = {} := by
        rw [Store.node, getD_eq_getElem?_getD, getElem?_eq_none (Nat.le_of_not_lt hOut)]
        rfl
      rw [hDefault] at hKind
      cases hKind
    have hValid : ∀ y ∈ (g.inputs n).drop 1, y ≠ kInvalidNodeId :=
      fun y hy => h.valid (mem_of_mem_drop hy)
    rcases hScan : phiCandidate n ((g.inputs n).drop 1) kInvalidNodeId with ⟨trivial, x⟩
    by_cases hFound : trivial = true ∧ x ≠ kInvalidNodeId
    · left
      have hSpec := (phiCandidate_eq_iff (x := x) hValid).mp ⟨by rw [hScan, hFound.1], hFound.2⟩
      have hTriv : g.TrivialPhi n x :=
        ⟨Or.inr ⟨hRange, hAlive⟩, hKind, hSpec.1, hSpec.2.1, hSpec.2.2⟩
      refine ⟨x, hTriv, ?_⟩
      have hGo : trivial = true ∧ x ≠ kInvalidNodeId ∧ (g.node x).isDead = false :=
        ⟨hFound.1, hFound.2, (h.operand_alive hTriv).2⟩
      simp only [visitPhi, hSkip, if_false, hScan, hGo, and_self, not_false_eq_true, ne_eq, if_true]
    · right
      constructor
      · intro x' hTriv
        obtain ⟨hEq, hx⟩ := (phiCandidate_eq_iff hValid).mpr ⟨hTriv.other, hTriv.mem, hTriv.only⟩
        rw [hScan] at hEq
        cases hEq
        exact hFound ⟨rfl, hx⟩
      · have hStay : ¬ (trivial = true ∧ x ≠ kInvalidNodeId ∧ (g.node x).isDead = false) :=
          fun hGo => hFound ⟨hGo.1, hGo.2.1⟩
        simp only [visitPhi, hSkip, if_false, hScan, hStay]

theorem UnderConstruction.replaceNode {p x : NodeId}
    (hTriv : g.TrivialPhi p x) (hReplaced : g.Replaced (g.replaceNode p x).1 p x) :
    UnderConstruction edge (g.replaceNode p x).1 := by
  have hRewrite := hReplaced.rewrite (W := default) hTriv.live
    (by rw [h.wired.start.2]; rfl) (hTriv.standsFor h.wired h.arity)
  have hNotStart : Graph.startNode ≠ p := by
    rintro rfl
    have hKind := hTriv.kind
    rw [h.wired.start.2] at hKind
    cases hKind
  constructor
  · exact h.ok.replaceNode p x
  · exact h.uses.replaceNode h.ok p x
  · exact hRewrite.wired h.wired
  · intro q r hLive hKind hMerge
    obtain ⟨hLiveOld, -⟩ := hRewrite.left q hLive
    rw [hReplaced.kinds] at hKind
    rw [hReplaced.inputs, getElem?_map, Option.map_eq_some_iff] at hMerge
    obtain ⟨r₀, hMerge₀, rfl⟩ := hMerge
    have hControl := h.wired.control q 0 r₀ hLiveOld (by rw [hKind]; rfl) hMerge₀
    have hStays : redirect p x r₀ = r₀ := by
      rw [redirect, if_neg]
      rintro rfl
      rw [hTriv.kind] at hControl
      cases hControl
    rw [hStays, hReplaced.inputs, hReplaced.inputs, length_map, length_map]
    exact h.arity q r₀ hLiveOld hKind hMerge₀
  · rw [isDead_of_tags (hReplaced.tags _ hNotStart)]
    exact h.start
  · rw [hReplaced.length]
    exact h.count

theorem collapse_replaceNode {p x : NodeId}
    (hTriv : g.TrivialPhi p x) : Collapse edge g (g.replaceNode p x).1 p x := by
  have hReplaced := replaced_of_guard h.ok h.uses ⟨(h.phi_alive hTriv).1,
    (h.operand_alive hTriv).1, (h.operand_alive hTriv).2, hTriv.other.symm⟩
  exact ⟨hTriv, fun W fuel path v hKnown hEval => hTriv.eval h.wired h.arity hKnown hEval,
    hReplaced, h.replaceNode hTriv hReplaced⟩

theorem Collapse.refines {g' : Store} {p x : NodeId}
    (hStep : Collapse edge g g' p x) (W : Valuation) :
    g.Refines edge W g' (redirect p x) := by
  apply Rewrite.refines h.wired
  exact hStep.replaced.rewrite hStep.trivial.live (by rw [h.wired.start.2]; rfl)
    (hStep.trivial.standsFor h.wired h.arity)

end

/-- A sequence of steps keeps all values, on all paths. -/
theorem Collapses.refines {g' : Store} {σ : NodeId → NodeId} (hSteps : Collapses edge g g' σ)
    (h : UnderConstruction edge g) (W : Valuation) : g.Refines edge W g' σ := by
  induction hSteps with
  | done g => exact (quiet_refl g).refines h.wired
  | step hStep _ ih => exact (hStep.refines h W).trans (ih hStep.kept)

/-- The number of phis that are no tombstones. -/
def livePhis (g : Store) : Nat :=
  (range g.nodes.length).countP fun n => (g.node n).kind == .phi && !(g.node n).isDead

theorem livePhis_le (g : Store) : livePhis g ≤ g.nodes.length := by
  rw [livePhis]
  simpa only [length_range] using countP_le_length (l := range g.nodes.length)

section

variable (h : UnderConstruction edge g)
include h

theorem livePhis_lt {g' : Store} {p x : NodeId}
    (hStep : Collapse edge g g' p x) : livePhis g' < livePhis g := by
  have hPhi := h.phi_alive hStep.trivial
  have hReplaced := hStep.replaced
  rw [livePhis, livePhis, hReplaced.length]
  have hMem : p ∈ range g.nodes.length := mem_range.mpr hPhi.1
  have hKept : ∀ n, ((g'.node n).kind == .phi && !(g'.node n).isDead) = true →
      ((g.node n).kind == .phi && !(g.node n).isDead) = true := by
    intro n hn
    by_cases hEq : n = p
    · rw [hEq, hReplaced.dead] at hn
      simp at hn
    · rw [hReplaced.kinds, isDead_of_tags (hReplaced.tags n hEq)] at hn
      exact hn
  obtain ⟨before, after, hSplit⟩ := append_of_mem hMem
  rw [hSplit, countP_append, countP_append, countP_cons, countP_cons]
  have hBefore := countP_mono_left (l := before) fun n _ => hKept n
  have hAfter := countP_mono_left (l := after) fun n _ => hKept n
  have hGone : ((g'.node p).kind == .phi && !(g'.node p).isDead) = false := by
    rw [hReplaced.dead]
    simp
  have hThere : ((g.node p).kind == .phi && !(g.node p).isDead) = true := by
    rw [hStep.trivial.kind, hPhi.2]
    rfl
  rw [hGone, hThere]
  simp only [Bool.false_eq_true, if_false, if_true]
  omega

/-! ## Rounds -/

/-- What a round over some of the nodes does: a sequence of steps that keeps what the
builder keeps and takes phis away, or nothing, and then none of the nodes is trivial. -/
theorem foldl_visitPhi (nodes : List NodeId) (changed : Bool) :
    ∃ g' changed' σ, nodes.foldl visitPhi (g, changed) = (g', changed') ∧
      Collapses edge g g' σ ∧ UnderConstruction edge g' ∧
      (g' = g ∧ changed' = changed ∧ (∀ n ∈ nodes, ∀ x, ¬ g.TrivialPhi n x) ∨
        changed' = true ∧ livePhis g' < livePhis g) := by
  induction nodes generalizing g changed with
  | nil =>
    exact ⟨g, changed, id, rfl, .done g, h, Or.inl ⟨rfl, rfl, fun n hn => absurd hn not_mem_nil⟩⟩
  | cons n nodes ih =>
    rw [foldl_cons]
    rcases visitPhi_cases h changed n with ⟨x, hTriv, hVisit⟩ | ⟨hNot, hVisit⟩
    · have hStep := collapse_replaceNode h hTriv
      have hLess := livePhis_lt h hStep
      obtain ⟨g', changed', σ, hFold, hSteps, hEnd, hCases⟩ := ih hStep.kept true
      refine ⟨g', changed', _, by rw [hVisit, hFold], .step hStep hSteps, hEnd, Or.inr ?_⟩
      rcases hCases with ⟨hSame, hFlag, -⟩ | ⟨hFlag, hMore⟩
      · rw [hSame]
        exact ⟨hFlag, hLess⟩
      · exact ⟨hFlag, Nat.lt_trans hMore hLess⟩
    · obtain ⟨g', changed', σ, hFold, hSteps, hEnd, hCases⟩ := ih h changed
      refine ⟨g', changed', σ, by rw [hVisit, hFold], hSteps, hEnd, ?_⟩
      rcases hCases with ⟨hSame, hFlag, hNone⟩ | hMore
      · exact Or.inl ⟨hSame, hFlag, forall_mem_cons.mpr ⟨hNot, hNone⟩⟩
      · exact Or.inr hMore

theorem phiRound_cases : ∃ g' changed σ, phiRound g = (g', changed) ∧ Collapses edge g g' σ ∧
      UnderConstruction edge g' ∧
      (g' = g ∧ changed = false ∧ (∀ p x, ¬ g.TrivialPhi p x) ∨
        changed = true ∧ livePhis g' < livePhis g) := by
  obtain ⟨g', changed, σ, hFold, hSteps, hEnd, hCases⟩ :=
    foldl_visitPhi h (range g.nodeCount) false
  refine ⟨g', changed, σ, hFold, hSteps, hEnd, ?_⟩
  rcases hCases with ⟨hSame, hFlag, hNone⟩ | hMore
  · refine Or.inl ⟨hSame, hFlag, fun p x hTriv => ?_⟩
    exact hNone p (mem_range.mpr (h.phi_alive hTriv).1) x hTriv
  · exact Or.inr hMore

theorem phiRounds_spec {rounds : Nat} (hRounds : livePhis g < rounds) :
    ∃ σ, Collapses edge g (phiRounds rounds g) σ ∧ UnderConstruction edge (phiRounds rounds g) ∧
      (∀ p x, ¬ (phiRounds rounds g).TrivialPhi p x) ∧
      ∀ more, rounds ≤ more → phiRounds more g = phiRounds rounds g := by
  induction rounds generalizing g with
  | zero => omega
  | succ rounds ih =>
    obtain ⟨g', changed, σ, hRound, hSteps, hEnd, hCases⟩ := phiRound_cases h
    rcases hCases with ⟨rfl, rfl, hNone⟩ | ⟨rfl, hLess⟩
    · have hStop : ∀ more, phiRounds (more + 1) g' = g' := by
        intro more
        simp only [phiRounds, hRound, Bool.false_eq_true, if_false]
      rw [hStop]
      refine ⟨id, .done g', h, hNone, ?_⟩
      intro more hMore
      obtain ⟨k, rfl⟩ := exists_eq_succ_of_ne_zero (by omega : more ≠ 0)
      exact hStop k
    · have hGo : ∀ more, phiRounds (more + 1) g = phiRounds more g' := by
        intro more
        simp only [phiRounds, hRound, if_true]
      obtain ⟨τ, hRest, hLast, hNone, hStable⟩ := ih hEnd (by omega)
      rw [hGo]
      refine ⟨τ ∘ σ, hSteps.trans hRest, hLast, hNone, ?_⟩
      intro more hMore
      obtain ⟨k, rfl⟩ := exists_eq_succ_of_ne_zero (by omega : more ≠ 0)
      rw [hGo]
      exact hStable k (by omega)

/-- The phase on a graph under construction: it is a sequence of removals of phis with one
operand beside themselves, each for a node of the same value, no trivial phi is left, and
the bound on the rounds has no part in where it stops. -/
theorem removeTrivialPhis_spec : ∃ σ, Collapses edge g (removeTrivialPhis g) σ ∧
      (∀ W, g.Refines edge W (removeTrivialPhis g) σ) ∧
      (∀ p x, ¬ (removeTrivialPhis g).TrivialPhi p x) ∧
      ∀ rounds, g.nodeCount + 2 ≤ rounds → phiRounds rounds g = removeTrivialPhis g := by
  have hBound : livePhis g < g.nodeCount + 2 :=
    Nat.lt_of_le_of_lt (livePhis_le g) (Nat.lt_add_of_pos_right (by decide))
  obtain ⟨σ, hSteps, -, hNone, hStable⟩ := phiRounds_spec h hBound
  exact ⟨σ, hSteps, fun W => hSteps.refines h W, hNone, hStable⟩

end

/-- Two nested loops as the builder leaves them: the phis 3 and 5 of a variable neither
loop assigns name each other. -/
def nestedLoops : Store := Store.fresh.run
  [.constantI 7, .make .loopBegin [0] 0 0, .make .phi [2, 1] 0 0, .make .loopBegin [2] 0 0,
    .make .phi [4, 3] 0 0, .make .ifNode [4, 1] 0 0, .make .ifTrue [6] 0 0,
    .make .ifFalse [6] 0 0, .make .loopEnd [7] 0 0, .make .loopEnd [8] 0 0,
    .appendInput 4 9, .appendInput 5 5, .appendInput 2 10, .appendInput 3 5]

namespace NestedLoops

def kinds : List NodeKind :=
  [.start, .constantI, .loopBegin, .phi, .loopBegin, .phi, .ifNode, .ifTrue, .ifFalse, .loopEnd,
    .loopEnd]

def operands : List (List NodeId) :=
  [[], [], [0, 10], [2, 1, 5], [2, 9], [4, 3, 5], [4, 1], [6], [6], [7], [8]]

def edges : List (NodeId × Nat × NodeId) :=
  [(0, 0, 2), (10, 1, 2), (2, 0, 4), (9, 1, 4), (4, 0, 6), (6, 0, 7), (6, 0, 8), (7, 0, 9),
    (8, 0, 10)]

theorem controlEdges_eq : nestedLoops.controlEdges = edges := by
  decide +kernel

theorem node_eq : ∀ n < 11, (nestedLoops.node n).kind = kinds.getD n .start ∧
    nestedLoops.inputs n = operands.getD n [] := by
  decide +kernel

theorem edge_cases {a b : NodeId} {k : Nat} (hEdge : nestedLoops.CtrlEdge a k b) :
    (a, k, b) ∈ edges := by
  rw [← controlEdges_eq]
  exact mem_controlEdges hEdge (by decide)

/-- The inner header is passed on the way to the ends of both loops. -/
theorem inner_dominates {b : NodeId} (hEnd : b = 9 ∨ b = 10) :
    Lib.Dominates nestedLoops.CtrlEdge entryVisit 4 b := by
  have hStep : ∀ {a b : NodeId}, b ≠ 0 → (∀ c ∈ edges, c.2.2 = b → c.1 = a) →
      Lib.Dominates nestedLoops.CtrlEdge entryVisit 4 a →
      Lib.Dominates nestedLoops.CtrlEdge entryVisit 4 b := by
    intro a b hEntry hPred
    apply Lib.dominates_of_pred hEntry
    intro a' k hEdge
    exact hPred _ (edge_cases hEdge) rfl
  have hIf := hStep (b := 6) (by decide) (by decide) (Lib.dominates_refl 4)
  rcases hEnd with rfl | rfl
  · exact hStep (by decide) (by decide) (hStep (b := 7) (by decide) (by decide) hIf)
  · exact hStep (by decide) (by decide) (hStep (b := 8) (by decide) (by decide) hIf)

theorem live_mem {n : NodeId} (h : nestedLoops.Live n) : n ∈ range 11 := by
  rcases h with hStart | ⟨hLt, -⟩
  · rw [hStart]
    decide
  · exact mem_range.mpr hLt

theorem place_phi {n c r : NodeId} (hKind : (nestedLoops.node n).kind.placement = .merge)
    (hMerge : (nestedLoops.inputs n)[0]? = some r) (h : nestedLoops.Place n c) : c = r := by
  cases h with
  | own _ hInput =>
    rw [hMerge] at hInput
    exact (Option.some.inj hInput).symm
  | operand hFloat =>
    rw [hKind] at hFloat
    cases hFloat

theorem not_place_constant {c : NodeId} (h : nestedLoops.Place 1 c) : False := by
  obtain ⟨hKind, hInputs⟩ := node_eq 1 (by decide)
  cases h with
  | own hPlace =>
    rw [hKind] at hPlace
    exact hPlace (by decide)
  | operand _ hMem =>
    rw [hInputs] at hMem
    exact not_mem_nil hMem

theorem ssa : nestedLoops.Ssa := by
  intro p r a x slot hLive hKind hMerge hEdge hInput c hPlace
  have hPhi : ∀ n < 11, kinds.getD n .start = .phi → n = 3 ∨ n = 5 := by decide
  have hLt := mem_range.mp (live_mem hLive)
  have hEdges := edge_cases hEdge
  obtain ⟨hOuterKind, hOuter⟩ := node_eq 3 (by decide)
  obtain ⟨hInnerKind, hInner⟩ := node_eq 5 (by decide)
  have hOuterMerge : (nestedLoops.node 3).kind.placement = .merge := by rw [hOuterKind]; rfl
  have hInnerMerge : (nestedLoops.node 5).kind.placement = .merge := by rw [hInnerKind]; rfl
  rw [(node_eq p hLt).1] at hKind
  rcases hPhi p hLt hKind with rfl | rfl
  · rw [hOuter] at hMerge hInput
    cases hMerge
    have hWay : (a = 0 ∧ slot = 0) ∨ (a = 10 ∧ slot = 1) := by simpa [edges] using hEdges
    rcases hWay with ⟨rfl, rfl⟩ | ⟨rfl, rfl⟩
    · cases hInput
      exact (not_place_constant hPlace).elim
    · cases hInput
      rw [place_phi hInnerMerge (by rw [hInner]; rfl) hPlace]
      exact inner_dominates (Or.inr rfl)
  · rw [hInner] at hMerge hInput
    cases hMerge
    have hWay : (a = 2 ∧ slot = 0) ∨ (a = 9 ∧ slot = 1) := by simpa [edges] using hEdges
    rcases hWay with ⟨rfl, rfl⟩ | ⟨rfl, rfl⟩
    · cases hInput
      rw [place_phi hOuterMerge (by rw [hOuter]; rfl) hPlace]
      exact Lib.dominates_refl 2
    · cases hInput
      rw [place_phi hInnerMerge (by rw [hInner]; rfl) hPlace]
      exact inner_dominates (Or.inl rfl)

theorem underConstruction : UnderConstruction nestedLoops.CtrlEdge nestedLoops := by
  refine ⟨Store.ok_fresh.run _, Store.useDef_fresh.run Store.ok_fresh _ (by decide +kernel),
    ⟨?_, ?_, ?_, ?_, ?_, fun _ _ _ h => h, ssa⟩, ?_, ?_, ?_⟩
  · decide +kernel
  · have hClosed : ∀ n ∈ range 11, ∀ a ∈ nestedLoops.inputs n, nestedLoops.Live a := by
      decide +kernel
    exact fun n a hLive hMem => hClosed n (live_mem hLive) a hMem
  · have hControl : ∀ n ∈ range 11, ∀ p ∈ (nestedLoops.inputs n).zipIdx,
        (nestedLoops.node n).kind.ctrlSlot p.2 = true →
          producesControl (nestedLoops.node p.1).kind = true := by
      decide +kernel
    intro n slot c hLive hSlot hInput
    exact hControl n (live_mem hLive) (c, slot) (mem_zipIdx_iff_getElem?.mpr hInput) hSlot
  · have hMerges : ∀ n ∈ range 11, ∀ r ∈ (nestedLoops.inputs n)[0]?,
        (nestedLoops.node n).kind = .phi → (nestedLoops.node r).kind ≠ .start := by
      decide +kernel
    exact fun p r hLive hKind hMerge => hMerges p (live_mem hLive) r hMerge hKind
  · have hArity : ∀ n ∈ range 11,
        (info (nestedLoops.node n).kind).roles.length ≤ (nestedLoops.inputs n).length := by
      decide +kernel
    exact fun n hLive => hArity n (live_mem hLive)
  · have hArity : ∀ n ∈ range 11, ∀ r ∈ (nestedLoops.inputs n)[0]?,
        (nestedLoops.node n).kind = .phi →
          (nestedLoops.inputs n).length = (nestedLoops.inputs r).length + 1 := by
      decide +kernel
    exact fun p r hLive hKind hMerge => hArity p (live_mem hLive) r hMerge hKind
  · decide +kernel
  · decide +kernel

end NestedLoops

/-- Both phis of the nested loops go. -/
theorem removeTrivialPhis_spec_nestedLoops :
    ((removeTrivialPhis nestedLoops).node 3).isDead = true ∧
    ((removeTrivialPhis nestedLoops).node 5).isDead = true ∧
    ∃ σ, Collapses nestedLoops.CtrlEdge nestedLoops (removeTrivialPhis nestedLoops) σ ∧
      (∀ W, nestedLoops.Refines nestedLoops.CtrlEdge W (removeTrivialPhis nestedLoops) σ) ∧
      (∀ p x, ¬ (removeTrivialPhis nestedLoops).TrivialPhi p x) ∧
      ∀ rounds, nestedLoops.nodeCount + 2 ≤ rounds →
        phiRounds rounds nestedLoops = removeTrivialPhis nestedLoops := by
  refine ⟨?_, ?_, removeTrivialPhis_spec NestedLoops.underConstruction⟩
  · decide +kernel
  · decide +kernel

end B2Compiler.Passes.GraphBuilder
