import Mathlib.Data.List.Forall2
import B2Compiler.Ir.Exec
import B2Compiler.Ir.StoreSlices
import B2Compiler.Lib.Dominance

/-!
# Values along a control path

What a node of the stored graph yields at the end of a control path.  A phi yields what
its operand for the last entry of its merge yielded on the path to that entry; a node
fixed in control yields what its execution made there; every other node is computed
from its operands where it is asked for.

Arithmetic, comparisons and tests are those of `Ir.Exec`.  Arguments, loads, call results
and the operations no pass looks into come from a `Valuation`: any function of the path
for the nodes fixed in control, any function of the operands for the others.  A division
by zero throws, and a node whose operand threw has thrown as well.  An outcome that
contradicts a never-null fact of the graph is no outcome.
-/

namespace B2Compiler.Ir

open Lib List

/-- A value, or an exception thrown on the way to it. -/
inductive Outcome where
  | val (v : Val)
  | trap
  deriving DecidableEq, Repr, Inhabited

def Outcome.val? : Outcome → Option Val
  | .val v => some v
  | .trap => none

/-- The visits of a control path, the latest first, each with the slot through which
control came to the node. -/
abbrev CtrlPath := List (NodeId × Nat)

/-- What comes from outside the graph. -/
structure Valuation extends World where
  /-- Arguments and the operations the passes do not look into, by kind, payloads,
  constant and operands. -/
  primitive : NodeKind → BitVec 32 → BitVec 32 → BitVec 64 → List Val → Option Val
  /-- What a node fixed in control makes at the end of a path. -/
  effect : CtrlPath → NodeId → Option Outcome

instance : Inhabited Valuation where
  default :=
    { ops := default
      isInstance := fun _ _ => false
      primitive := fun _ _ _ _ _ => none
      effect := fun _ _ => none }

/-! ## One operation -/

/-- How a node comes to its value. -/
inductive Placement where
  | merge | fixed | floating
  deriving DecidableEq, Repr

def NodeKind.placement (k : NodeKind) : Placement :=
  if k = .phi then .merge
  else match (info k).roles.head? with
    | some .ctrl | some .parent => .fixed
    | _ => .floating

/-- The never-null facts a record carries. -/
def NodeRec.neverNull (nd : NodeRec) : Bool :=
  nd.flags.has .neverNull ||
    match nd.kind with
    | .new | .newArray | .newRefArray | .newMultiArray | .materialize | .constantSym => true
    | _ => false

def NodeRec.settle (nd : NodeRec) : Outcome → Option Outcome
  | .val v => if nd.neverNull = true ∧ v = .null then none else some (.val v)
  | .trap => some .trap

/-- An integer division by zero. -/
def NodeRec.dividesByZero (nd : NodeRec) : List Val → Bool
  | [.int _, .int b] => (nd.kind == .divI || nd.kind == .remI) && b == 0
  | [.long _, .long b] => (nd.kind == .divL || nd.kind == .remL) && b == 0
  | _ => false

section

variable (W : Valuation)

/-- The value of a floating node by those of its operands. -/
def NodeRec.compute (nd : NodeRec) (vs : List Val) : Option Val :=
  match nd.kind with
  | .constantI => some (.int (nd.constValue.setWidth 32))
  | .constantL => some (.long nd.constValue)
  | .constantF => some (.float (nd.constValue.setWidth 32))
  | .constantD => some (.double nd.constValue)
  | .constantNull => some .null
  | .isNull => match vs with
      | [a] => (nullTest a).map ofBool
      | _ => none
  | .instanceOf => match vs with
      | [a] => (classTest W.toWorld nd.payload.toNat a).map ofBool
      | _ => none
  | .refEq => match vs with
      | [a, b] => (sameRef a b).map ofBool
      | _ => none
  | k =>
    if k.isUnary then match vs with
      | [a] => unaryOp W.ops k a
      | _ => none
    else if k.isBinary then match vs with
      | [a, b] => binaryOp W.ops k a b
      | _ => none
    else if k.isValueless then none
    else W.primitive k nd.payload nd.payload2 nd.constValue vs

def NodeRec.operate (nd : NodeRec) (vs : List Val) : Option Outcome :=
  if nd.dividesByZero vs then some .trap
  else (nd.compute W vs).bind fun v => nd.settle (.val v)

def NodeRec.operateOn (nd : NodeRec) (os : List Outcome) : Option Outcome :=
  if .trap ∈ os then some .trap else nd.operate W (os.filterMap Outcome.val?)

namespace Store

variable (g : Store)

/-- What a node yields at the end of a path; `fuel` bounds the nested questions. -/
def eval : Nat → CtrlPath → NodeId → Option Outcome
  | 0, _, _ => none
  | fuel + 1, path, n =>
    match (g.node n).kind.placement with
    | .merge => do
        let r ← (g.inputs n)[0]?
        let (slot, before) ← lastVisit r path
        let x ← (g.inputs n)[slot + 1]?
        (g.node n).settle (← eval fuel before x)
    | .fixed => do
        let c ← (g.inputs n)[0]?
        let (slot, before) ← lastVisit c path
        (g.node n).settle (← W.effect ((c, slot) :: before) n)
    | .floating => do
        let os ← (g.inputs n).mapM (eval fuel path)
        (g.node n).operateOn W os

/-- All operands have values at the end of the path, and the operation throws. -/
def Throws (path : CtrlPath) (n : NodeId) : Prop :=
  (g.node n).kind.placement = .floating ∧
    ∃ fuel vs, (g.inputs n).mapM (g.eval W fuel path) = some (vs.map Outcome.val) ∧
      (g.node n).operate W vs = some .trap

end Store

end

/-! ## Control -/

/-- Is the slot a control input of the kind? -/
def NodeKind.ctrlSlot (k : NodeKind) (slot : Nat) : Bool :=
  match (info k).roles[slot]? with
  | some role => role == .ctrl || role == .parent
  | none => (info k).variadicRole == some .ctrl

namespace Store

/-- A node that counts: the start node, or a node in range that is no tombstone. -/
def Live (g : Store) (n : NodeId) : Prop :=
  n = Graph.startNode ∨ (n < g.nodes.length ∧ (g.node n).isDead = false)

instance (g : Store) (n : NodeId) : Decidable (g.Live n) :=
  inferInstanceAs (Decidable (_ ∨ _))

/-- `u` takes control from `c` at a slot. -/
def CtrlEdge (g : Store) (c : NodeId) (slot : Nat) (u : NodeId) : Prop :=
  g.Live u ∧ (g.node u).kind ≠ .phi ∧ (g.inputs u)[slot]? = some c ∧
    (g.node u).kind.ctrlSlot slot = true

def controlEdges (g : Store) : List (NodeId × Nat × NodeId) :=
  (range g.nodes.length).flatMap fun u =>
    if g.Live u ∧ (g.node u).kind ≠ .phi then
      (g.inputs u).zipIdx.filterMap fun p =>
        if (g.node u).kind.ctrlSlot p.2 then some (p.1, p.2, u) else none
    else []

theorem mem_controlEdges {g : Store} {c u : NodeId} {slot : Nat} (hEdge : g.CtrlEdge c slot u)
    (hStart : 0 < g.nodes.length) : (c, slot, u) ∈ g.controlEdges := by
  obtain ⟨hLive, hKind, hInput, hSlot⟩ := hEdge
  have hRange : u < g.nodes.length := by
    rcases hLive with hEq | ⟨hLt, -⟩
    · rw [hEq]
      exact hStart
    · exact hLt
  rw [controlEdges, mem_flatMap]
  refine ⟨u, mem_range.mpr hRange, ?_⟩
  rw [if_pos ⟨hLive, hKind⟩, mem_filterMap]
  exact ⟨(c, slot), mem_zipIdx_iff_getElem?.mpr hInput, if_pos hSlot⟩

/-- Where every path begins. -/
def entryVisit : NodeId × Nat := (Graph.startNode, 0)

/-- The points of control the value of a node is settled at: the merge of a phi, the
predecessor of a node fixed in control, and those of the operands of any other node. -/
inductive Place (g : Store) : NodeId → NodeId → Prop
  | own {n c : NodeId} (hKind : (g.node n).kind.placement ≠ .floating)
      (hInput : (g.inputs n)[0]? = some c) : Place g n c
  | operand {n a c : NodeId} (hKind : (g.node n).kind.placement = .floating)
      (hMem : a ∈ g.inputs n) (hPlace : Place g a c) : Place g n c

section

variable (edge : NodeId → Nat → NodeId → Prop)

/-- Everything the node's value is settled at has been passed when control is at `b`. -/
def AvailableAlong (g : Store) (n b : NodeId) : Prop :=
  ∀ c, g.Place n c → Dominates edge entryVisit c b

/-- Static single assignment: the operands of a phi are available at the predecessors
they belong to. -/
def SsaAlong (g : Store) : Prop :=
  ∀ p r a x slot, g.Live p → (g.node p).kind = .phi → (g.inputs p)[0]? = some r →
    edge a slot r → (g.inputs p)[slot + 1]? = some x → g.AvailableAlong edge x a

end

abbrev Ssa (g : Store) : Prop := g.SsaAlong g.CtrlEdge

end Store

theorem mapM_eq_some_iff {α β : Type} {f : α → Option β} {l : List α} {os : List β} :
    l.mapM f = some os ↔ List.Forall₂ (fun a o => f a = some o) l os := by
  induction l generalizing os with
  | nil =>
    rw [mapM_nil, forall₂_nil_left_iff]
    exact ⟨fun h => (Option.some.inj h).symm, fun h => congrArg some h.symm⟩
  | cons a l ih =>
    rw [mapM_cons, forall₂_cons_left_iff]
    constructor
    · intro h
      obtain ⟨o, ho, hRest⟩ := Option.bind_eq_some_iff.mp h
      obtain ⟨os', hos', hEq⟩ := Option.bind_eq_some_iff.mp hRest
      exact ⟨o, os', ho, ih.mp hos', (Option.some.inj hEq).symm⟩
    · rintro ⟨o, os', ho, hos', rfl⟩
      rw [ho, Option.bind_eq_bind, Option.bind_some, ih.mpr hos']
      rfl

theorem filterMap_map_val (vs : List Val) : (vs.map Outcome.val).filterMap Outcome.val? = vs := by
  induction vs with
  | nil => rfl
  | cons v vs ih => rw [map_cons, filterMap_cons_some (f := Outcome.val?) (b := v) rfl, ih]

theorem eq_map_val {os : List Outcome} (h : Outcome.trap ∉ os) :
    os = (os.filterMap Outcome.val?).map Outcome.val := by
  induction os with
  | nil => rfl
  | cons o os ih =>
    have hRest := ih fun hMem => h (mem_cons_of_mem _ hMem)
    cases o with
    | trap => exact absurd mem_cons_self h
    | val v =>
      rw [filterMap_cons_some (f := Outcome.val?) (b := v) rfl, map_cons]
      exact congrArg (Outcome.val v :: ·) hRest

section

variable {W : Valuation} {nd : NodeRec}

theorem operateOn_vals (vs : List Val) : nd.operateOn W (vs.map Outcome.val) = nd.operate W vs := by
  rw [NodeRec.operateOn, filterMap_map_val, if_neg (by simp)]

theorem settle_eq_val {o : Outcome} {v : Val} :
    nd.settle o = some (.val v) ↔ o = .val v ∧ ¬ (nd.neverNull = true ∧ v = .null) := by
  cases o with
  | trap => simp [NodeRec.settle]
  | val w =>
    rw [NodeRec.settle]
    by_cases hNull : nd.neverNull = true ∧ w = .null
    · rw [if_pos hNull]
      constructor
      · intro h
        cases h
      · rintro ⟨hEq, hNot⟩
        cases hEq
        exact absurd hNull hNot
    · rw [if_neg hNull]
      constructor
      · intro h
        cases h
        exact ⟨rfl, hNull⟩
      · rintro ⟨hEq, -⟩
        rw [hEq]

theorem operate_eq_trap {vs : List Val} :
    nd.operate W vs = some .trap ↔ nd.dividesByZero vs = true := by
  rw [NodeRec.operate]
  by_cases hZero : nd.dividesByZero vs = true
  · rw [if_pos hZero]
    simp [hZero]
  rw [if_neg hZero]
  constructor
  · intro h
    obtain ⟨w, -, hSettle⟩ := Option.bind_eq_some_iff.mp h
    rw [NodeRec.settle] at hSettle
    split at hSettle <;> cases hSettle
  · intro h
    exact absurd h hZero

end

namespace Store

variable {W : Valuation} {g : Store}

variable {path : CtrlPath} {v : Val}

/-- A floating node has a value exactly if its operands have values and the operation
yields it. -/
theorem eval_floating_iff {fuel : Nat} {n : NodeId}
    (hKind : (g.node n).kind.placement = .floating) :
    g.eval W (fuel + 1) path n = some (.val v) ↔
      ∃ vs, List.Forall₂ (fun a w => g.eval W fuel path a = some (.val w)) (g.inputs n) vs ∧
        (g.node n).operate W vs = some (.val v) := by
  rw [eval, hKind]
  constructor
  · intro h
    obtain ⟨os, hos, hOp⟩ := Option.bind_eq_some_iff.mp h
    have hAll := mapM_eq_some_iff.mp hos
    by_cases hTrap : Outcome.trap ∈ os
    · rw [NodeRec.operateOn, if_pos hTrap] at hOp
      cases hOp
    · rw [eq_map_val hTrap, operateOn_vals] at hOp
      rw [eq_map_val hTrap, forall₂_map_right_iff] at hAll
      exact ⟨_, hAll, hOp⟩
  · rintro ⟨vs, hAll, hOp⟩
    have hos : (g.inputs n).mapM (g.eval W fuel path) = some (vs.map Outcome.val) := by
      rw [mapM_eq_some_iff, forall₂_map_right_iff]
      exact hAll
    simp only [hos, Option.bind_eq_bind, Option.bind_some, operateOn_vals]
    exact hOp

theorem eval_merge_iff {fuel : Nat} {n : NodeId} (hKind : (g.node n).kind.placement = .merge) :
    g.eval W (fuel + 1) path n = some (.val v) ↔
      ∃ r slot before x, (g.inputs n)[0]? = some r ∧ lastVisit r path = some (slot, before) ∧
        (g.inputs n)[slot + 1]? = some x ∧ g.eval W fuel before x = some (.val v) ∧
        ¬ ((g.node n).neverNull = true ∧ v = .null) := by
  rw [eval, hKind]
  constructor
  · intro h
    obtain ⟨r, hr, h⟩ := Option.bind_eq_some_iff.mp h
    obtain ⟨⟨slot, before⟩, hVisit, h⟩ := Option.bind_eq_some_iff.mp h
    obtain ⟨x, hx, h⟩ := Option.bind_eq_some_iff.mp h
    obtain ⟨o, ho, hSettle⟩ := Option.bind_eq_some_iff.mp h
    obtain ⟨rfl, hFact⟩ := settle_eq_val.mp hSettle
    exact ⟨r, slot, before, x, hr, hVisit, hx, ho, hFact⟩
  · rintro ⟨r, slot, before, x, hr, hVisit, hx, ho, hFact⟩
    simp only [hr, hVisit, hx, ho, Option.bind_eq_bind, Option.bind_some]
    exact settle_eq_val.mpr ⟨rfl, hFact⟩

theorem eval_fixed {fuel : Nat} {n : NodeId} (hKind : (g.node n).kind.placement = .fixed) :
    g.eval W (fuel + 1) path n = (g.inputs n)[0]?.bind fun c => (lastVisit c path).bind fun visit =>
        (W.effect ((c, visit.1) :: visit.2) n).bind (g.node n).settle := by
  rw [eval, hKind]
  rfl

theorem eval_succ {fuel : Nat} {n : NodeId} (h : g.eval W fuel path n = some (.val v)) :
    g.eval W (fuel + 1) path n = some (.val v) := by
  induction fuel generalizing path n v with
  | zero => cases h
  | succ fuel ih =>
    rcases hKind : (g.node n).kind.placement with _ | _ | _
    · obtain ⟨r, slot, before, x, hr, hVisit, hx, ho, hFact⟩ := (eval_merge_iff hKind).mp h
      exact (eval_merge_iff hKind).mpr ⟨r, slot, before, x, hr, hVisit, hx, ih ho, hFact⟩
    · rw [eval_fixed hKind] at h ⊢
      exact h
    · obtain ⟨vs, hAll, hOp⟩ := (eval_floating_iff hKind).mp h
      exact (eval_floating_iff hKind).mpr ⟨vs, hAll.imp (fun a w ha => ih ha), hOp⟩

theorem throws_iff {n : NodeId} : g.Throws W path n ↔ (g.node n).kind.placement = .floating ∧
      ∃ fuel vs, List.Forall₂ (fun a w => g.eval W fuel path a = some (.val w)) (g.inputs n) vs ∧
        (g.node n).dividesByZero vs = true := by
  rw [Throws]
  refine and_congr_right fun _ => exists_congr fun fuel => exists_congr fun vs => ?_
  rw [mapM_eq_some_iff, forall₂_map_right_iff]
  exact and_congr_right fun _ => operate_eq_trap

theorem availableAlong_operand {edge : NodeId → Nat → NodeId → Prop} {n a b : NodeId}
    (hKind : (g.node n).kind.placement = .floating) (hMem : a ∈ g.inputs n)
    (h : g.AvailableAlong edge n b) : g.AvailableAlong edge a b :=
  fun c hPlace => h c (.operand hKind hMem hPlace)

/-- A value does not change along visits that settle none of it. -/
theorem eval_append {fuel : Nat} {since before : CtrlPath} {n : NodeId}
    (h : ∀ c, g.Place n c → ∀ i, (c, i) ∉ since) :
    g.eval W fuel (since ++ before) n = g.eval W fuel before n := by
  induction fuel generalizing n with
  | zero => rfl
  | succ fuel ih =>
    rw [eval, eval]
    rcases hKind : (g.node n).kind.placement with _ | _ | _
    · rcases hr : (g.inputs n)[0]? with _ | r
      · rfl
      · have hOwn := h r (.own (by rw [hKind]; nofun) hr)
        simp only [Option.bind_eq_bind, Option.bind_some, lastVisit_append hOwn]
    · rcases hr : (g.inputs n)[0]? with _ | c
      · rfl
      · have hOwn := h c (.own (by rw [hKind]; nofun) hr)
        simp only [Option.bind_eq_bind, Option.bind_some, lastVisit_append hOwn]
    · have hAll : (g.inputs n).mapM (g.eval W fuel (since ++ before)) =
          (g.inputs n).mapM (g.eval W fuel before) := by
        apply mapM_congr_mem
        intro a ha
        exact ih fun c hc => h c (.operand hKind ha hc)
      simp only [hAll]

end Store

end B2Compiler.Ir
